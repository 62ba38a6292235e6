import Stencil.Entries
import Stencil.Files.Tree

/-!
# Loaders

A loader finds templates by name, possibly inside subdirectories: in a directory of a file tree,
where names get an extension, or in a table in memory, where the key is the path with slashes.
-/

namespace Stencil

/-- The lines of a source. Carriage returns are dropped; there is always one line more than line
ends. -/
def splitLines (source : Text) : List Text :=
  Text.splitOn '\n' (source.filter (· != '\r'))

/-- Where templates are looked for. -/
inductive Loader where
  /-- Files with an extension below a directory. -/
  | directory (root : Location) (extension : Text)
  /-- Sources by key. -/
  | table (templates : List (Text × Text))
deriving Repr

namespace Loader

/-- The location of a template below a directory. -/
def resolve (root : Location) (extension name : Text) (subdirs : List Text) : Location :=
  let file := if extension.isEmpty then name else name ++ '.' :: extension
  Location.push (subdirs.foldl Location.push root) file

/-- The key of a template in a table. -/
def key (name : Text) (subdirs : List Text) : Text := Text.join ['/'] (subdirs ++ [name])

/-- The source of a template. -/
def load (loader : Loader) (files : FileTree) (name : Text) (subdirs : List Text) :
    Except Error Text :=
  match loader with
  | directory root extension =>
    let l := resolve root extension name subdirs
    if files.isFile l then
      (files.read l).mapError fun e =>
        .templateNotFound ("Error reading template '".toList ++ l ++ "': ".toList ++ e.message)
    else
      .error (.templateNotFound
        ("Template \"".toList ++ name ++ "\" does not exist (".toList ++ l ++ [')']))
  | table templates =>
    match Entries.get? (key name subdirs) templates with
    | some source => .ok source
    | none =>
      .error (.templateNotFound
        ("Template \"".toList ++ key name subdirs ++ "\" does not exist".toList))

/-- The lines of a template. -/
def loadLines (loader : Loader) (files : FileTree) (name : Text) (subdirs : List Text) :
    Except Error (List Text) :=
  (loader.load files name subdirs).map splitLines

end Loader

end Stencil
