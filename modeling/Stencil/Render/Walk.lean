import Stencil.Render.Body
import Stencil.Render.Composition

/-!
# Walking a layer

A layer is walked line by line. While a body is captured, a line goes into the capture; otherwise
each directive that occurs on it takes effect, in the order of the directives, until the line is
finished output or a capture begins. The lines of a layer being walked are changed by nothing else.

Layers nest: a line can lead to further layers that are walked before the next line. How deep they
may nest is given beforehand.
-/

namespace Stencil.Render

variable (engine : Engine) (context : Context)

/-- The effect of a directive on a line on which it occurs. -/
def apply (walk : Walker) (chain : Chain) (line : Line) : Directive → Render Line
  | .inherits => inherit engine line
  | .includes => includeLine engine walk chain line
  | .block =>
    match Directive.block.find? line.text with
    | none => return line
    | some tag => do
      beginCapture (.block tag.argument)
      return line.blank
  | .loop =>
    match (Directive.loop.find? line.text).bind fun tag => LoopHeader.ofArgument? tag.argument with
    | none => return line
    | some header => do
      beginCapture (.loop header.variableName header.collection)
      return line.blank
  | .condition =>
    match Directive.condition.find? line.text with
    | none => return line
    | some tag => do
      beginCapture (.condition tag.argument)
      return line.blank
  | .asset => return line.edit (engine.linkAssets line.text)
  | .route => return line.edit (engine.linkRoutes line.text)
  | .interpolation => return line.edit (context.interpolate line.text)

/-- The line after the directives. -/
def dispatch (walk : Walker) (chain : Chain) : List Directive → Line → Render Line
  | [], line => return line
  | d :: rest, line => do
    if line.rendered || (← get).capture.isSome then return line
    let line ← if d.occursIn line.text then apply engine context walk chain line d else pure line
    dispatch walk chain rest line

/-- The line that closes a body, with what comes of the body in its place. -/
def close (walk : Walker) (chain : Chain) (body : List Line) (line : Line) :
    Construct → Render Line
  | .block name => endBlock walk chain name body line
  | .loop variableName collection =>
    endLoop context walk chain ⟨variableName, collection⟩ body line
  | .condition expression => endCondition context walk chain expression body line

/-- The line after its turn. -/
def handle (walk : Walker) (chain : Chain) (line : Line) : Render Line := do
  match (← get).capture with
  | none => dispatch engine context walk chain Directive.order line
  | some capture =>
    match capture.feed line with
    | .held capture =>
      modify fun session => { session with capture := some capture }
      return line.blank
    | .closed construct body =>
      modify fun session => { session with capture := none }
      close context walk chain body line construct

/-- Handles the lines of a layer from a position on and stores each of them after its turn. -/
def handleFrom (walk : Walker) (chain : Chain) (name : Text) :
    (position : Nat) → List Line → Render Unit
  | _, [] => return
  | position, line :: rest => do
    let line ← handle engine context walk chain line
    modifyLayers fun layers => layers.modify name fun l => l.modify position fun _ => line
    handleFrom walk chain name (position + 1) rest

/-- Walks the layer whose name comes first in the chain, with layers nested at most `depth` deep. -/
def walk : (depth : Nat) → Walker
  | 0, _ => throw .tooDeep
  | _ + 1, [] => return
  | depth + 1, name :: outer => entering name do
    match (← get).layers.get? name with
    | none => return
    | some layer => handleFrom engine context (walk depth) (name :: outer) name 0 layer.lines

end Stencil.Render
