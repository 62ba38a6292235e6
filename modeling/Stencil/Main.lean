import Stencil.CommandLine.Program

/-!
# The executable

Surveys the files that a run can ask for, runs the program on them, and carries out what comes of
it.
-/

namespace Stencil.Executable

/-- The absolute path of a place. -/
def path (place : Place) : String :=
  String.ofList ('/' :: Text.join ['/'] place.reverse)

/-- What stands at a place, if anything does. -/
def node (place : Place) : IO (Option Node) := do
  try
    let names ← IO.FS.readBinFile (path place)
    return some (.file ((String.fromUTF8? names).map String.toList))
  catch _ =>
    try
      let handle ← IO.FS.realPath (path place)
      return if ← handle.isDir then some .directory else none
    catch _ => return none

/-- The tree with what stands at a place. -/
def learn (tree : FileTree) (place : Place) : IO FileTree := do
  if (tree.node? place).isSome then return tree
  match ← node place with
  | some n => return tree.put place n
  | none => return tree

/-- The tree with what stands on the way to a location and at its end. -/
def survey (tree : FileTree) (l : Location) : IO FileTree := do
  let mut tree := tree
  let mut place := if l.isAbsolute then [] else tree.base
  for part in l.parts do
    if part == ['.', '.'] then place := place.tail
    else if !FileTree.staysPut part then
      place := part :: place
      tree ← learn tree place
  return tree

/-- The tree with the directories below a place, and with the files among them that have the given
extension. -/
def surveyBelow (extension : Text) : (depth : Nat) → FileTree → Place → IO FileTree
  | 0, tree, _ => return tree
  | depth + 1, tree, place => do
    let entries ← try (← IO.FS.realPath (path place)).readDir catch _ => pure #[]
    let mut tree := tree
    for entry in entries do
      let name := entry.fileName.toList
      let inner := name :: place
      if ← entry.path.isDir then
        tree ← surveyBelow extension depth (tree.put inner .directory) inner
      else if extension.isEmpty || (Text.upTo? ('.' :: extension) name).isSome then
        tree ← learn tree inner
    return tree

/-- The variables of the environment that settings can have. -/
def environment : IO Environment := do
  let names := ["DEBUG", "TEMPLATE_DIR", "TEMPLATE_EXTENSION", "INCLUDES_DIR", "ERROR_DIR",
    "STATIC_URL", "LOG_LEVEL"].map ("NELUMBO_" ++ ·)
  let values ← names.mapM fun name => return (name, ← IO.getEnv name)
  return values.filterMap fun (name, value?) => value?.map fun v => (name.toList, v.toList)

/-- The locations that a command names. -/
def locations : Command → List Location
  | .check => []
  | .errorPage _ _ _ output? => output?.toList
  | .render _ data? routes? output? => data?.toList ++ routes?.toList ++ output?.toList

/-- The file that a command writes to. -/
def output? : Command → Option Location
  | .check => none
  | .errorPage _ _ _ output? => output?
  | .render _ _ _ output? => output?

/-- The files that a run can ask for. -/
def files (words : List Text) (environment : Environment) : IO FileTree := do
  let here := (← IO.currentDir).toString.toList
  let base := ((Text.splitOn '/' here).filter (!·.isEmpty)).reverse
  let mut tree ← survey { base } here
  if let .ok invocation := Invocation.ofArguments words then
    for l in invocation.config?.toList ++ locations invocation.command do
      tree ← survey tree l
    if let .ok settings := invocation.settings environment tree then
      tree ← survey tree settings.templateDir
      for l in [['.'], settings.templateDir] do
        if let .ok place := tree.place l then
          tree ← surveyBelow settings.templateExtension 16 tree place
  return tree

end Stencil.Executable

open Stencil in
/-- Runs the program on the arguments it is called with. -/
def main (arguments : List String) : IO UInt32 := do
  let words := arguments.map String.toList
  let environment ← Executable.environment
  let ending := Program.run words environment (← Executable.files words environment)
  let complain := fun (message : Text) =>
    IO.eprintln (String.ofList (Program.name ++ ": ".toList ++ message))
  if let some message := ending.message? then
    complain message
    return ending.code.toUInt32
  if let .ok invocation := Invocation.ofArguments words then
    if let some l := Executable.output? invocation.command then
      if let .ok page := ending.files.read l then
        try IO.FS.writeFile (String.ofList l) (String.ofList page)
        catch e =>
          complain (Error.io (.other (toString e).toList)).message
          return 1
  (← IO.getStdout).putStr (String.ofList ending.printed)
  return 0
