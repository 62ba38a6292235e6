import Stencil.Engine

/-!
# Project checks

A check looks at the settings of a project and at its files, and finds what would otherwise go wrong
only when a page is rendered. Without the directory of templates nothing else is looked at, since
nothing below it can exist either.
-/

namespace Stencil

/-- How grave a finding is, in ascending order. -/
inductive Severity where
  /-- Worth knowing. -/
  | info
  /-- Pages may come out wrong. -/
  | warning
  /-- No page comes out right. -/
  | error
  /-- Nothing works. -/
  | critical
deriving DecidableEq, Repr

namespace Severity

/-- The name of a severity. -/
def name : Severity → Text
  | info => "INFO".toList
  | warning => "WARNING".toList
  | error => "ERROR".toList
  | critical => "CRITICAL".toList

/-- Whether a finding of that severity makes a check fail. -/
def isFatal : Severity → Bool
  | info | warning => false
  | error | critical => true

end Severity

/-- Something that a check found. -/
structure Finding where
  /-- How grave it is. -/
  severity : Severity
  /-- What identifies the kind of finding. -/
  id : Text
  /-- What was found. -/
  message : Text
  /-- What can be done about it, or what comes of it. -/
  hint? : Option Text
deriving DecidableEq, Repr

namespace Settings

/-- The directory of the partial templates. -/
def includesLocation (settings : Settings) : Location :=
  settings.includesDir.foldl Location.push settings.templateDir

/-- The file of the template for error pages. -/
def errorPageLocation (settings : Settings) : Location :=
  Loader.resolve settings.templateDir settings.templateExtension Engine.errorTemplate
    [settings.errorDir]

/-- What a check finds. -/
def findings (settings : Settings) (files : FileTree) : List Finding :=
  if !files.isDirectory settings.templateDir then
    [{ severity := .error
       id := "templates.E001".toList
       message := "Template directory ".toList ++ settings.templateDir ++ " does not exist".toList
       hint? := some "Set template_dir to the directory holding your templates".toList }]
  else
    (if files.isDirectory settings.includesLocation then []
     else
      [{ severity := .warning
         id := "templates.W001".toList
         message := "Includes directory ".toList ++ settings.includesLocation ++
           " does not exist".toList
         hint? := some "Every \x7b% include %\x7d will render an inline error".toList }]) ++
    (if files.isFile settings.errorPageLocation then []
     else
      [{ severity := .warning
         id := "templates.W002".toList
         message := "Error page ".toList ++ settings.errorPageLocation ++ " does not exist".toList
         hint? := some "Error pages will fall back to a plain-text line".toList }]) ++
    (if settings.staticUrl.isEmpty then
      [{ severity := .warning
         id := "static.W001".toList
         message := "static_url is empty".toList
         hint? := some "\x7b% static %\x7d paths will be relative to the page".toList }]
     else [])

/-- Fails if a finding is fatal. -/
def check (settings : Settings) (files : FileTree) : Except Error Unit :=
  let fatal := (settings.findings files).filter (·.severity.isFatal)
  if fatal.isEmpty then .ok ()
  else
    .error (.configuration
      ("Check found ".toList ++ Text.ofNat fatal.length ++ " error(s)".toList))

end Settings

end Stencil
