import Stencil.CommandLine.Arguments
import Stencil.Files.Location
import Stencil.Numeral.Reading

/-!
# Invocations

What a command line asks for: one of three commands with its arguments, the settings file, and
whether the environment counts. The settings file and the environment may be given before the
command and after it; what stands after it wins.
-/

namespace Stencil

open Arguments

/-- The name of a command. -/
inductive CommandName where
  /-- Looks for problems of the project. -/
  | check
  /-- Renders the error page. -/
  | errorPage
  /-- Renders a template. -/
  | render
deriving DecidableEq, Repr

namespace CommandName

/-- All commands, in the order of their names. -/
def all : List CommandName := [check, errorPage, render]

/-- The word that calls the command. -/
def word : CommandName → Text
  | check => "check".toList
  | errorPage => "error-page".toList
  | render => "render".toList

/-- What the command does. -/
def help : CommandName → Text
  | check => "Check the project settings and template layout".toList
  | errorPage => "Render the generic error page for a status code".toList
  | render => "Render a template to HTML".toList

/-- The command that a word calls. -/
def ofWord? (w : Text) : Option CommandName := all.find? (·.word = w)

/-- Whether a word is a status code: a whole number of sixteen bits without sign. -/
def isCode (w : Text) : Bool := (Numeral.int64? w).any fun n => 0 ≤ n && n.toNat < UInt16.size

/-- The options that are known at every level. -/
def commonOptions : List OptionRule :=
  [⟨"config".toList, some 'c', .value⟩, ⟨"env".toList, none, .flag⟩,
    ⟨"help".toList, some 'h', .help⟩]

/-- The option for the file that a page goes to. -/
def outputOption : OptionRule := ⟨"output".toList, some 'o', .value⟩

/-- The level of a command. -/
def level : CommandName → Level
  | check => { options := commonOptions, positions := [], commands := [] }
  | errorPage =>
    { options := outputOption :: commonOptions
      positions := [⟨"code".toList, true, isCode⟩, ⟨"subtitle".toList, true, fun _ => true⟩,
        ⟨"message".toList, false, fun _ => true⟩]
      commands := [] }
  | render =>
    { options := ⟨"data".toList, some 'd', .value⟩ :: ⟨"routes".toList, none, .value⟩ ::
        outputOption :: commonOptions
      positions := [⟨"template".toList, true, fun _ => true⟩]
      commands := [] }

end CommandName

/-- A command with its arguments. -/
inductive Command where
  /-- Looks for problems of the project. -/
  | check
  /-- Renders the error page for a status code. -/
  | errorPage (code : Nat) (subtitle message : Text) (output? : Option Location)
  /-- Renders a template with the data and the routes in two files. -/
  | render (template : Text) (data? routes? output? : Option Location)
deriving DecidableEq, Repr

namespace Command

/-- A command with the arguments that are given for it. -/
def ofGiven (name : CommandName) (given : List (Text × Text)) : Command :=
  let value? := fun (key : String) => given.lookup key.toList
  let value := fun (key : String) => (value? key).getD []
  match name with
  | .check => .check
  | .errorPage =>
    .errorPage ((Numeral.int64? (value "code")).getD 0).toNat (value "subtitle") (value "message")
      (value? "output")
  | .render => .render (value "template") (value? "data") (value? "routes") (value? "output")

end Command

/-- What a command line asks for. -/
structure Invocation where
  /-- The command. -/
  command : Command
  /-- The settings file. -/
  config? : Option Location
  /-- Whether the environment counts. -/
  environment : Bool
deriving DecidableEq, Repr

namespace Invocation

/-- The word that asks for the help. -/
def helpWord : Text := "help".toList

/-- The outer level of the command line. -/
def outer : Level :=
  { options := CommandName.commonOptions ++ [⟨"version".toList, some 'V', .version⟩]
    positions := []
    commands := CommandName.all.map CommandName.word ++ [helpWord] }

/-- What comes of the words behind the one that asks for the help: each has to be a command of the
one before it, and only the outer level has commands. -/
def helpOn : List Text → Stop
  | [] => .help
  | [w] => if outer.commands.contains w then .help else .fault .unknownCommand
  | _ => .fault .unknownCommand

/-- Reads a command line. A fault behind the command shows before one that is still pending in front
of it. -/
def ofArguments (words : List Text) : Except Stop Invocation := do
  let (p, command?) ← outer.scan {} words
  match command? with
  | none => do
    let _ ← p.settle
    .error (.fault .missingCommand)
  | some (w, rest) =>
    match CommandName.ofWord? w with
    | none => .error (helpOn rest)
    | some name =>
      let (inner, _) ← name.level.scan {} rest
      let given ← name.level.finish inner
      let before := (← p.settle).given
      return {
        command := .ofGiven name given
        config? := (given.lookup "config".toList).or (before.lookup "config".toList)
        environment := (given ++ before).any (·.1 = "env".toList) }

end Invocation

end Stencil
