import Stencil.Error
import Stencil.Files.Tree
import Stencil.Json.Merge
import Stencil.Json.Reader
import Stencil.Settings.Basic
import Stencil.Toml.Reader

/-!
# Reading settings

A settings file names the settings that differ from the defaults. It is read as a JSON value, laid
over the defaults, and the result has to be a whole set of settings: an object with a value of the
right kind for each, where other fields are passed over, or an array of the values in the order of
their declaration. Variables of the environment are applied last and never fail.
-/

namespace Stencil

namespace Settings

/-- The settings as an object. -/
def toJson (settings : Settings) : Json :=
  .obj (Entries.ofList
    [("debug".toList, .bool settings.debug),
     ("template_dir".toList, .str settings.templateDir),
     ("template_extension".toList, .str settings.templateExtension),
     ("includes_dir".toList, .arr (settings.includesDir.map .str)),
     ("error_dir".toList, .str settings.errorDir),
     ("static_url".toList, .str settings.staticUrl),
     ("log_level".toList, .str settings.logLevel),
     ("extra".toList, .obj settings.extra)])

/-- The settings with these values, if all are of the right kind. -/
def ofValues? (debug templateDir templateExtension includesDir errorDir staticUrl logLevel
    extra : Json) : Option Settings := do
  return {
    debug := ← debug.bool?
    templateDir := ← templateDir.str?
    templateExtension := ← templateExtension.str?
    includesDir := ← includesDir.texts?
    errorDir := ← errorDir.str?
    staticUrl := ← staticUrl.str?
    logLevel := ← logLevel.str?
    extra := ← extra.entries? }

/-- The settings of a JSON value. -/
def ofJson? : Json → Option Settings
  | .obj entries => do
    let field := fun (key : String) => Entries.get? key.toList entries
    ofValues? (← field "debug") (← field "template_dir") (← field "template_extension")
      (← field "includes_dir") (← field "error_dir") (← field "static_url")
      (← field "log_level") (← field "extra")
  | .arr [debug, templateDir, templateExtension, includesDir, errorDir, staticUrl, logLevel,
      extra] =>
    ofValues? debug templateDir templateExtension includesDir errorDir staticUrl logLevel extra
  | _ => none

/-- A notation for settings files. -/
inductive Format where
  /-- Tables of keys and values. -/
  | toml
  /-- One JSON value. -/
  | json
deriving DecidableEq, Repr

namespace Format

/-- What messages call the format. -/
def name : Format → Text
  | toml => "TOML".toList
  | json => "JSON".toList

/-- The format of a file, which its extension tells. -/
def ofLocation (l : Location) : Format :=
  if l.extension? = some "toml".toList then toml else json

end Format

/-- The defaults with a JSON value laid over them. -/
def ofOverrides (format : Format) (overrides : Json) : Except Error Settings :=
  match ofJson? ((toJson {}).merge overrides) with
  | some settings => .ok settings
  | none =>
    .error (.configuration ("Failed to deserialize settings from ".toList ++ format.name ++
      ": wrong kind of value".toList))

/-- The settings in a text. -/
def ofText (format : Format) (t : Text) : Except Error Settings :=
  let overrides? := match format with
    | .toml => Toml.ofText? t
    | .json => Json.ofText? t
  match overrides? with
  | some overrides => ofOverrides format overrides
  | none =>
    .error (.configuration
      ("Failed to parse ".toList ++ format.name ++ ": malformed document".toList))

/-- The settings in a file of the given format. -/
def ofFileAs (format : Format) (files : FileTree) (l : Location) : Except Error Settings :=
  match files.read l with
  | .ok t => ofText format t
  | .error e =>
    .error (.configuration ("Failed to read ".toList ++ format.name ++ " file '".toList ++ l ++
      "': ".toList ++ e.message))

/-- The settings in a file of the format that its extension tells. -/
def ofFile (files : FileTree) (l : Location) : Except Error Settings :=
  ofFileAs (Format.ofLocation l) files l

end Settings

end Stencil
