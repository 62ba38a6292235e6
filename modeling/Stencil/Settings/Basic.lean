import Stencil.Entries
import Stencil.Files.Location
import Stencil.Json.Basic
import Stencil.Text.Blank

/-!
# Settings

What a project configures: where templates, partial templates and the error page are, what static
links begin with, and how much is logged. Anything else a settings file holds under "extra" is kept
as it is.
-/

namespace Stencil

/-- The settings of a project. -/
structure Settings where
  /-- Whether the engine's own traces are logged. -/
  debug : Bool := false
  /-- The directory of the templates. -/
  templateDir : Location := "templates".toList
  /-- The extension of template files. -/
  templateExtension : Text := "html".toList
  /-- The way from the templates to the partial templates. -/
  includesDir : List Text := ["includes".toList]
  /-- The way from the templates to the error page. -/
  errorDir : Text := "errors".toList
  /-- What static links begin with. -/
  staticUrl : Text := "assets".toList
  /-- What is logged. -/
  logLevel : Text := "info".toList
  /-- Whatever else is configured, in ascending order of the keys. -/
  extra : List (Text × Json) := []
deriving Inhabited

namespace Settings

/-- The engine in a filter of log records. -/
def engineTarget : Text := "nelumbo_template".toList

/-- The filter of log records. In debug mode the engine's traces are let through unless the filter
says something about the engine itself. -/
def logFilter (settings : Settings) : Text :=
  let level := settings.logLevel.trim
  let level := if level.isEmpty then "info".toList else level
  if settings.debug && !Text.mentions engineTarget level then
    level ++ ',' :: engineTarget ++ "=trace".toList
  else level

end Settings

end Stencil
