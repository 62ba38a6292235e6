import Stencil.Text.Blank

/-!
# Lines

A template is rendered line by line, and a tag that opens or closes a body has a line of its own. A
line that was cut off the line before it is glued to that line: no line end is written between them.
A line whose text a directive has replaced counts as edited, and is dropped from the output if
nothing visible is left of it; a line that holds finished output counts as rendered and is never
looked at again.
-/

namespace Stencil

/-- A line of a layer. -/
structure Line where
  /-- The text of the line. -/
  text : Text
  /-- Whether the line continues the line before it. -/
  glued : Bool := false
  /-- Whether a directive has replaced the text. -/
  edited : Bool := false
  /-- Whether the text is finished output. -/
  rendered : Bool := false
deriving DecidableEq, Repr, Inhabited

namespace Line

/-- Whether the line is dropped from the output: it was edited and shows nothing. -/
def discarded (line : Line) : Bool := line.edited && Text.isBlank line.text

/-- The line with another text, which is still subject to directives. -/
def edit (line : Line) (text : Text) : Line := { line with text, edited := true }

/-- The line consumed by a directive. -/
def blank (line : Line) : Line := { line with text := [], edited := true, rendered := false }

/-- The line with finished output for its text. -/
def fill (line : Line) (text : Text) : Line :=
  { line with text, edited := true, rendered := true }

@[simp] theorem discarded_blank (line : Line) : line.blank.discarded = true := rfl

@[simp] theorem glued_blank (line : Line) : line.blank.glued = line.glued := rfl

@[simp] theorem glued_fill (line : Line) (text : Text) : (line.fill text).glued = line.glued := rfl

end Line

end Stencil
