import Stencil.CommandLine.Execution

/-!
# The program

What the program does with a command line, from its words to the way it ends: with an exit code, a
message if it fails, and with what it has printed and written. An error of rendering has an exit
code of its own.
-/

namespace Stencil

/-- How a run of the program ends. -/
structure Ending where
  /-- The exit code. -/
  code : Nat
  /-- What is said about a failure. -/
  message? : Option Text
  /-- The files afterwards. -/
  files : FileTree
  /-- What was printed. -/
  printed : Text

namespace Arguments.Fault

/-- The words for a fault. -/
def message : Fault → Text
  | missingCommand => "a command is required".toList
  | unknownCommand => "there is no such command".toList
  | unknownArgument => "there is an argument too many".toList
  | missingArgument => "an argument is missing".toList
  | missingValue => "an option lacks its value".toList
  | unneededValue => "an option takes no value".toList
  | repeated => "an option is given twice".toList
  | invalidValue => "the status code is no number below 65536".toList

end Arguments.Fault

namespace Program

/-- The name of the program. -/
def name : Text := "nelumbo".toList

/-- The version of the program. -/
def version : Text := "0.1.0".toList

/-- What the program prints when it is asked for help. -/
def help : Text :=
  let line := fun (c : CommandName) => "\n  ".toList ++ c.word ++ "  ".toList ++ c.help
  "Render nelumbo templates from the command line\n\nCommands:".toList ++
    CommandName.all.flatMap line ++
    "\n\nOptions:\n  -c, --config FILE  Settings file\n  --env  Apply the environment\n".toList

/-- The exit code for an error. -/
def exitCode (e : Error) : Nat := if e.isRenderError then 2 else 1

/-- The end of a run with an error, which leaves the files alone. -/
def failed (files : FileTree) (e : Error) : Ending :=
  { code := exitCode e, message? := some e.message, files, printed := [] }

/-- Runs the program. -/
def run (words : List Text) (environment : Environment) (files : FileTree) : Ending :=
  match Invocation.ofArguments words with
  | .error .help => { code := 0, message? := none, files, printed := help }
  | .error .version =>
    { code := 0, message? := none, files, printed := name ++ ' ' :: version ++ ['\n'] }
  | .error (.fault f) => failed files (.configuration f.message)
  | .ok invocation =>
    match invocation.run environment files with
    | .ok outcome =>
      { code := 0, message? := none, files := outcome.files, printed := outcome.printed }
    | .error e => failed files e

end Program

end Stencil
