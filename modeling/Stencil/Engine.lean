import Stencil.Files.Loader
import Stencil.Route.Basic
import Stencil.Settings.Basic
import Stencil.Tag.Directive

/-!
# Engines

An engine holds everything a render needs besides the data: where templates come from, where partial
templates and the error page are looked for, and what links are made of. A template that was added
to the engine itself comes before those of its loaders, and these are asked in their order.
-/

namespace Stencil

/-- What a render needs besides the data. -/
structure Engine where
  /-- The files that loaders read. -/
  files : FileTree := {}
  /-- The templates added to the engine itself, by key. -/
  templates : List (Text × Text) := []
  /-- Where templates are looked for next, in order. -/
  loaders : List Loader := []
  /-- The way to the partial templates. -/
  includesDir : List Text := Settings.includesDir {}
  /-- The way to the error page. -/
  errorDir : Text := Settings.errorDir {}
  /-- What static links begin with. -/
  staticUrl : Text := Settings.staticUrl {}
  /-- The routes that links can name. -/
  routes : RouteTable := {}
deriving Inhabited

namespace Engine

/-- The name of the template for error pages. -/
def errorTemplate : Text := "error_generic".toList

/-- The engine of a project. -/
def ofSettings (settings : Settings) (files : FileTree) : Engine where
  files
  loaders := [.directory settings.templateDir settings.templateExtension]
  includesDir := settings.includesDir
  errorDir := settings.errorDir
  staticUrl := settings.staticUrl

/-- The engine with a template of its own. -/
def addTemplate (engine : Engine) (key source : Text) : Engine :=
  { engine with templates := Entries.insert key source engine.templates }

/-- The engine with a loader that is asked after the others. -/
def addLoader (engine : Engine) (loader : Loader) : Engine :=
  { engine with loaders := engine.loaders ++ [loader] }

/-- The engine with a directory that is asked before the other loaders. -/
def addTemplateDir (engine : Engine) (root : Location) (extension : Text) : Engine :=
  { engine with loaders := .directory root extension :: engine.loaders }

/-- The lines of a template, from the first loader that has it. The error is that of the last one.
-/
def loadFrom (files : FileTree) (name : Text) (subdirs : List Text) :
    List Loader → Except Error (List Text)
  | [] =>
    .error (.templateNotFound ("Template \"".toList ++ name ++ "\" could not be found".toList))
  | [loader] => loader.loadLines files name subdirs
  | loader :: next :: rest =>
    match loader.loadLines files name subdirs with
    | .ok lines => .ok lines
    | .error _ => loadFrom files name subdirs (next :: rest)

/-- The lines of a template. -/
def loadLines (engine : Engine) (name : Text) (subdirs : List Text) : Except Error (List Text) :=
  match Loader.loadLines (.table engine.templates) engine.files name subdirs with
  | .ok lines => .ok lines
  | .error _ => loadFrom engine.files name subdirs engine.loaders

/-- The link to a static file. -/
def assetLink (engine : Engine) (path : Text) : Text :=
  let path := path.map fun c => if c = '\\' then '/' else c
  Text.dropEnd '/' engine.staticUrl ++ '/' :: Text.dropStart '/' path

/-- The link to a route; a name without a route is taken for a path. -/
def routeLink (engine : Engine) (name : Text) : Text :=
  (engine.routes.reverse? name).getD ('/' :: Text.dropStart '/' name)

/-- The text with its static links replaced. -/
def linkAssets (engine : Engine) (t : Text) : Text :=
  Directive.asset.pattern.replace (fun tag => engine.assetLink (unquote tag.argument)) t

/-- The text with its links to routes replaced. -/
def linkRoutes (engine : Engine) (t : Text) : Text :=
  Directive.route.pattern.replace (fun tag => engine.routeLink (unquote tag.argument)) t

/-- The number of characters in all templates that the engine may read. -/
def sourceSize (engine : Engine) : Nat :=
  let loader := fun
    | .table templates => templates.flatMap (·.2)
    | .directory _ _ => []
  let file := fun (entry : Place × Node) =>
    match entry.2 with
    | .file (some text) => text
    | _ => []
  (engine.templates.flatMap (·.2)).length + (engine.loaders.flatMap loader).length +
    (engine.files.nodes.flatMap file).length

end Engine

end Stencil
