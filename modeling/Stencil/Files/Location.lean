import Stencil.Text.Basic

/-!
# Locations

The text that says where a file is. Parts are joined by slashes and nothing is simplified: going on
from a location only appends to its text, except that an absolute part replaces all that stands
before it.
-/

namespace Stencil

/-- The text of a place in a file tree. -/
abbrev Location := Text

namespace Location

/-- Whether the location starts at the root. -/
def isAbsolute (l : Location) : Bool := l.head? == some '/'

/-- The location reached by going on with `part`. A part without text leaves a slash at the end. -/
def push (l : Location) (part : Text) : Location :=
  if isAbsolute part then part
  else if l.isEmpty || l.getLast? == some '/' then l ++ part
  else l ++ '/' :: part

/-- The stretches between the slashes. -/
def parts (l : Location) : List Text := Text.splitOn '/' l

/-- The last part that names something; there is none if the location ends by going up. -/
def name? (l : Location) : Option Text :=
  (l.parts.filter fun p => !p.isEmpty && p != ['.']).getLast?.filter (· != ['.', '.'])

/-- What follows the last point of a name, unless the name starts with that point. -/
def extension? (l : Location) : Option Text := do
  let (reversed, stem) ← Text.splitOnce? '.' (← l.name?).reverse
  if stem.isEmpty then none else some reversed.reverse

theorem push_of_isAbsolute {l : Location} {part : Text} (h : isAbsolute part = true) :
    push l part = part := by
  simp [push, h]

end Location

end Stencil
