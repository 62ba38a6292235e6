import Stencil.CommandLine.Invocation
import Stencil.Project.Check
import Stencil.Render.Page
import Stencil.Route.Reader
import Stencil.Settings.Environment
import Stencil.Settings.Reader

/-!
# Executing commands

A command works on a file tree and leaves a file tree behind, together with what it prints. A
command that fails leaves the files as they were: a page is written only when all of it is there.
-/

namespace Stencil

/-- What a command leaves behind. -/
structure Outcome where
  /-- The files. -/
  files : FileTree
  /-- What was printed. -/
  printed : Text := []

namespace Outcome

/-- A page that was written to a file, or else printed. -/
def ofPage (files : FileTree) (page : Text) : (output? : Option Location) → Except Error Outcome
  | none => .ok { files, printed := page }
  | some l => (files.write l page).mapError .io |>.map fun files => { files }

end Outcome

namespace Command

/-- The data in a file. -/
def context (files : FileTree) : (data? : Option Location) → Except Error Context
  | none => .ok {}
  | some l => do Context.ofText (← (files.read l).mapError .io)

/-- The engine of a project with the routes in a file. -/
def engine (settings : Settings) (files : FileTree) :
    (routes? : Option Location) → Except Error Engine
  | none => .ok (Engine.ofSettings settings files)
  | some l => do
    let routes ← RouteTable.ofFile files l
    return { Engine.ofSettings settings files with routes }

/-- Runs a command. -/
def run (settings : Settings) (files : FileTree) : Command → Except Error Outcome
  | .check => do
    settings.check files
    return { files }
  | .errorPage code subtitle message output? => do
    let page ← (Engine.ofSettings settings files).renderErrorPage code subtitle message
    Outcome.ofPage files page output?
  | .render template data? routes? output? => do
    let context ← context files data?
    let engine ← engine settings files routes?
    Outcome.ofPage files (← engine.render template context) output?

end Command

namespace Invocation

/-- The settings that an invocation runs with: those of the settings file, or else the defaults, and
the environment over them if it counts. -/
def settings (invocation : Invocation) (environment : Environment) (files : FileTree) :
    Except Error Settings := do
  let settings ← match invocation.config? with
    | some l => Settings.ofFile files l
    | none => .ok {}
  return if invocation.environment then settings.override environment else settings

/-- Runs what a command line asks for. -/
def run (invocation : Invocation) (environment : Environment) (files : FileTree) :
    Except Error Outcome := do
  invocation.command.run (← invocation.settings environment files) files

end Invocation

/-- Commands that can be called by name, in the order of their names. -/
structure Registry where
  /-- The commands. -/
  commands : List CommandName := []
deriving DecidableEq, Repr

namespace Registry

/-- The registry with a command, which may be there already. -/
def register (registry : Registry) (name : CommandName) : Registry :=
  { commands := CommandName.all.filter fun c => c = name || registry.commands.contains c }

/-- The command of a name. -/
def find (registry : Registry) : (word? : Option Text) → Except Error CommandName
  | none => .error (.configuration "No subcommand specified".toList)
  | some w =>
    match registry.commands.find? (·.word = w) with
    | some name => .ok name
    | none => .error (.configuration ("Unknown command: ".toList ++ w))

end Registry

end Stencil
