import Stencil.Error
import Stencil.Files.Location

/-!
# File trees

A file tree says what stands at each place: nothing, a directory or a file. Programs read files as
text, so that a file holds either a text or something that is no text. Relative locations start at
one directory of the tree.

A location is walked part by part from left to right. Going up undoes the last step, and each part
but the last has to lead to a directory, also if the next part goes up again.
-/

namespace Stencil

/-- What stands at a place of a file tree. -/
inductive Node where
  /-- A directory. -/
  | directory
  /-- A file with its text, or none if what it holds is no text. -/
  | file (content? : Option Text)
deriving DecidableEq, Repr

/-- A place: the names on the way to it, the last one first. The root has none. -/
abbrev Place := List Text

/-- What stands where, and where relative locations start. -/
structure FileTree where
  /-- The places at which something stands, apart from the root. -/
  nodes : List (Place × Node) := []
  /-- The directory relative locations start from. -/
  base : Place := []
deriving Repr, Inhabited

namespace FileTree

/-- The number of bytes that a name may have. -/
def nameLimit : Nat := 255

/-- The number of bytes that a location has to stay below. -/
def locationLimit : Nat := 4096

/-- What stands at a place. -/
def node? (tree : FileTree) (place : Place) : Option Node :=
  if place.isEmpty then some .directory else (tree.nodes.find? (·.1 = place)).map (·.2)

/-- The tree with `node` at a place, whatever stood there. -/
def put (tree : FileTree) (place : Place) (node : Node) : FileTree :=
  { tree with nodes := (place, node) :: tree.nodes.filter (·.1 ≠ place) }

/-- Whether a part stays where it is. -/
def staysPut (part : Text) : Bool := part.isEmpty || part == ['.']

/-- Takes one step from a directory. -/
def step (tree : FileTree) (place : Place) (part : Text) : Except IoError Place :=
  match tree.node? place with
  | none => .error .notFound
  | some (.file _) => .error .notDirectory
  | some .directory =>
    if staysPut part then .ok place
    else if part = ['.', '.'] then .ok place.tail
    else if nameLimit < Text.utf8Size part then .error .nameTooLong
    else .ok (part :: place)

/-- The place that some parts lead to from where a location starts; nothing has to stand there. The
location itself has to be one that can be walked at all. -/
def walk (tree : FileTree) (l : Location) (parts : List Text) : Except IoError Place :=
  if l.contains '\x00' then .error .nullInPath
  else if l.isEmpty then .error .notFound
  else if locationLimit ≤ Text.utf8Size l then .error .nameTooLong
  else parts.foldlM tree.step (if l.isAbsolute then [] else tree.base)

/-- The place that a location leads to; nothing has to stand there. -/
def place (tree : FileTree) (l : Location) : Except IoError Place := tree.walk l l.parts

/-- What stands where a location leads. -/
def find (tree : FileTree) (l : Location) : Except IoError Node := do
  match tree.node? (← tree.place l) with
  | some node => .ok node
  | none => .error .notFound

/-- Whether a location leads to a file. -/
def isFile (tree : FileTree) (l : Location) : Bool :=
  match tree.find l with
  | .ok (.file _) => true
  | _ => false

/-- Whether a location leads to a directory. -/
def isDirectory (tree : FileTree) (l : Location) : Bool :=
  match tree.find l with
  | .ok .directory => true
  | _ => false

/-- The text of a file. -/
def read (tree : FileTree) (l : Location) : Except IoError Text := do
  match ← tree.find l with
  | .directory => .error .isDirectory
  | .file none => .error .notText
  | .file (some text) => .ok text

/-- Whether the location ends in a name, so that a file can be made there. -/
def endsInName (l : Location) : Bool :=
  match l.parts.getLast? with
  | some part => !staysPut part && part != ['.', '.']
  | none => false

/-- The parts of a location that can only lead to a directory, as far as they are walked before that
shows: a name with slashes behind it is not looked up, but has to stand in a directory. -/
def partsToDirectory (l : Location) : List Text :=
  let stem : Location := Text.dropEnd '/' l
  if endsInName stem then stem.parts.dropLast ++ [[]] else l.parts

/-- The tree with `text` in the file that a location leads to, which is made if nothing stands
there. A location that ends in a slash or goes up at its end can only lead to a directory. -/
def write (tree : FileTree) (l : Location) (text : Text) : Except IoError FileTree :=
  if endsInName l then do
    let place ← tree.place l
    if tree.node? place = some .directory then .error .isDirectory
    else .ok (tree.put place (.file (some text)))
  else do
    let _ ← tree.walk l (partsToDirectory l)
    .error .isDirectory

theorem node?_put_self (tree : FileTree) {place : Place} (h : place ≠ []) (node : Node) :
    (tree.put place node).node? place = some node := by
  simp [put, node?, h]

theorem node?_put_of_ne (tree : FileTree) {place other : Place} (h : other ≠ place) (node : Node) :
    (tree.put place node).node? other = tree.node? other := by
  by_cases ho : other = []
  · simp [node?, ho]
  · have hfind : ∀ nodes : List (Place × Node),
        (nodes.filter (·.1 ≠ place)).find? (·.1 = other) = nodes.find? (·.1 = other) := by
      intro nodes
      rw [List.find?_filter]
      congr 1
      funext entry
      by_cases he : entry.1 = other <;> simp_all
    have hne : ¬ place = other := fun e => h e.symm
    simp only [put, node?, List.isEmpty_iff, ho, List.find?_cons, hne, hfind]
    simp

end FileTree

end Stencil
