import Stencil.Condition.Evaluation
import Stencil.Interpolation
import Stencil.Loop.Expansion
import Stencil.Render.Session

/-!
# Loops and conditions in a render

The body of a loop is rendered once for each key of its collection, and the body of a condition if
the condition holds. What comes of it takes the place of the closing tag.
-/

namespace Stencil.Render

variable (context : Context)

/-- The keys of the collection of a loop. A collection inside a value may be missing. -/
def loopKeys (header : LoopHeader) : Except Error (List Text) :=
  match context.get? header.collection with
  | some collection => .ok (iterationKeys collection)
  | none => if header.isNested then .ok [] else .error (.missingCollection header.collection)

/-- One iteration of a loop. -/
def iteration (header : LoopHeader) (key : Text) (position : Nat) : Iteration :=
  { header, key, position, literal := context.evaluate (header.collection ++ '.' :: key) }

/-- The texts of the iterations from a position on, without those that are empty. -/
def iterations (walk : Walker) (chain : Chain) (header : LoopHeader) (body : List Line) :
    (position : Nat) → (keys : List Text) → Render (List Text)
  | _, [] => return []
  | position, key :: rest => do
    let lines := (iteration context header key position).expand body
    let text ← transient walk chain (header.key ++ '.' :: key) { kind := .iteration, lines }
    let texts ← iterations walk chain header body (position + 1) rest
    return if text.isEmpty then texts else text :: texts

/-- What stands between the iterations: nothing if the body continues the line of the opening tag,
and a line end otherwise. -/
def separator (body : List Line) : Text :=
  if (body.head?.map Line.glued).getD false then [] else ['\n']

/-- Closes a loop. -/
def endLoop (walk : Walker) (chain : Chain) (header : LoopHeader) (body : List Line) (line : Line) :
    Render Line := do
  match loopKeys context header with
  | .error e => throw e
  | .ok keys =>
    let texts ← iterations context walk chain header body 0 keys
    return line.fill (Text.join (separator body) texts)

/-- Closes a condition. -/
def endCondition (walk : Walker) (chain : Chain) (condition : Text) (body : List Line)
    (line : Line) : Render Line :=
  match Condition.evaluate condition context with
  | .ok true =>
    return line.fill (← transient walk chain condition { kind := .branch, lines := body })
  | .ok false => return line.blank
  | .error _ => return line.fill (Condition.errorText condition)

end Stencil.Render
