import Stencil.Text.Blank

/-!
# Scanning for tags

A pattern looks at the start of a text and says whether a tag stands there. Scanning walks a text
from left to right, takes the tag wherever the pattern finds one, and goes on behind it; all other
characters are passed on one by one. Replacing tags, collecting them and cutting a text at them are
ways to read the scanned text, so that all of them agree on where the tags are.
-/

namespace Stencil

/-- A tag in a text. -/
structure Tag where
  /-- The whole tag with its delimiters. -/
  source : Text
  /-- What the tag says, without keyword and blanks around it. -/
  argument : Text
deriving DecidableEq, Repr

/-- A rule that recognises a tag at the start of a text. -/
abbrev Pattern := Text → Option Tag

/-- A part of a scanned text: a character outside all tags, or a tag. -/
inductive Fragment where
  /-- A character outside all tags. -/
  | char (c : Char)
  /-- A tag. -/
  | tag (t : Tag)
deriving DecidableEq, Repr

namespace Fragment

/-- The text the fragment was scanned from. -/
def source : Fragment → Text
  | char c => [c]
  | tag t => t.source

/-- The tag, if the fragment is one. -/
def tag? : Fragment → Option Tag
  | char _ => none
  | tag t => some t

end Fragment

namespace Pattern

/-- Scans a text of which the first `skip` characters belong to a tag already taken. -/
def scanFrom (p : Pattern) : (skip : Nat) → Text → List Fragment
  | _, [] => []
  | skip + 1, _ :: cs => scanFrom p skip cs
  | 0, c :: cs =>
    match p (c :: cs) with
    | some t => .tag t :: scanFrom p (t.source.length - 1) cs
    | none => .char c :: scanFrom p 0 cs

/-- The fragments of a text. -/
def scan (p : Pattern) (t : Text) : List Fragment := scanFrom p 0 t

/-- The tags in a text, from left to right. -/
def tags (p : Pattern) (t : Text) : List Tag := (scan p t).filterMap Fragment.tag?

/-- The first tag in a text. -/
def find? (p : Pattern) (t : Text) : Option Tag := (scan p t).findSome? Fragment.tag?

/-- Whether a tag occurs in a text. -/
def occursIn (p : Pattern) (t : Text) : Bool := (scan p t).any fun f => f.tag?.isSome

/-- The text with each tag replaced. -/
def replace (p : Pattern) (f : Tag → Text) (t : Text) : Text :=
  (scan p t).flatMap fun
    | .char c => [c]
    | .tag tag => f tag

/-- The fragments cut at the tags: the text before the first tag, and each tag with the text up to
the next one. -/
def cut : List Fragment → Text × List (Tag × Text)
  | [] => ([], [])
  | .char c :: rest => (c :: (cut rest).1, (cut rest).2)
  | .tag t :: rest => ([], (t, (cut rest).1) :: (cut rest).2)

/-- The text without its first tag. -/
def dropFirst (p : Pattern) (t : Text) : Text :=
  match cut (scan p t) with
  | (before, []) => before
  | (before, (_, gap) :: rest) => before ++ gap ++ rest.flatMap fun (tag, gap) => tag.source ++ gap

/-- The tags of the fragments with the byte at which each begins, when the first fragment begins at
`start`. -/
def offsets (start : Nat) : List Fragment → List (Nat × Tag)
  | [] => []
  | .char c :: rest => offsets (start + c.utf8Size) rest
  | .tag t :: rest => (start, t) :: offsets (start + Text.utf8Size t.source) rest

end Pattern

end Stencil
