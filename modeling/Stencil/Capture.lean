import Stencil.Error
import Stencil.Layer.Line
import Stencil.Tag.Directive

/-!
# Captures

The body of a block, a loop or a condition is captured line by line until the tag that closes it.
Only tags of the same directive count for the depth; a directive of another kind inside the body is
captured as it stands and takes effect when the body is rendered. Rendered lines are captured
without counting.
-/

namespace Stencil

/-- What has a body. -/
inductive Construct where
  /-- A named block. -/
  | block (name : Text)
  /-- A loop over a collection. -/
  | loop (variableName collection : Text)
  /-- A condition. -/
  | condition (expression : Text)
deriving DecidableEq, Repr

namespace Construct

/-- The directive whose tags open and close the body. -/
def directive : Construct → Directive
  | block _ => .block
  | loop _ _ => .loop
  | condition _ => .condition

/-- What a message calls the construct. -/
def label : Construct → Text
  | block name => "block '".toList ++ name ++ ['\'']
  | loop variableName collection =>
    "for '".toList ++ variableName ++ ':' :: collection ++ ['\'']
  | condition expression => "if '".toList ++ expression ++ ['\'']

end Construct

/-- A body while it is being captured. -/
structure Capture where
  /-- What the body belongs to. -/
  construct : Construct
  /-- How many bodies of the directive are open. -/
  depth : Nat := 1
  /-- The lines captured so far. -/
  buffer : List Line := []
deriving DecidableEq, Repr

namespace Capture

/-- What comes of a line offered to a capture. -/
inductive Step where
  /-- The line is captured and the capture goes on. -/
  | held (capture : Capture)
  /-- The line closes the body. -/
  | closed (construct : Construct) (body : List Line)
deriving DecidableEq, Repr

/-- Opens a capture where none is open. -/
def begin (open? : Option Capture) (construct : Construct) : Except Error Capture :=
  match open? with
  | some capture => .error (.captureActive capture.construct.label)
  | none => .ok { construct }

/-- The depth after a line. -/
def depthAfter (capture : Capture) (line : Line) : Nat :=
  if line.rendered then capture.depth
  else
    let d := capture.construct.directive
    let opened := if d.occursIn line.text then capture.depth + 1 else capture.depth
    if d.closesIn line.text then opened - 1 else opened

/-- Offers a line to the capture. A line that is held is to be blanked where it stood. -/
def feed (capture : Capture) (line : Line) : Step :=
  let depth := capture.depthAfter line
  if depth = 0 then .closed capture.construct capture.buffer
  else .held { capture with depth, buffer := capture.buffer ++ [line] }

end Capture

end Stencil
