import Stencil.Capture
import Stencil.Engine
import Stencil.Layer.Stack

/-!
# Render sessions

What a render keeps from line to line: the stack of layers, the body that is being captured, the
parents that wait for their turn, and the templates that were extended already. A render may fail,
and what it did to the session until then stays.

The layers being walked form a chain, from the innermost layer out to the one that the render
started with. The chain is handed down from call to call. The session keeps a record of it from one
line to the next, and that is where a template that is loaded starts from.
-/

namespace Stencil

/-- The state of a render. -/
structure Session where
  /-- The layers of the page. -/
  layers : Stack := {}
  /-- The body that is being captured. -/
  capture : Option Capture := none
  /-- The layers of the parents that are still to be walked, in order. -/
  pending : List Text := []
  /-- The templates that were extended. -/
  extended : List Text := []
  /-- The layers being walked, the innermost first. -/
  active : List Text := []
deriving Inhabited

/-- A part of a render: it works on a session, and it may fail. -/
abbrev Render := ExceptT Error (StateM Session)

/-- The names of the layers being walked, the innermost first. -/
abbrev Chain := List Text

/-- Walks the layer whose name comes first in the chain. -/
abbrev Walker := Chain → Render Unit

namespace Session

/-- Whether a layer of that kind is being walked. -/
def isInside (session : Session) (chain : Chain) (kind : LayerKind) : Bool :=
  chain.any fun name => (session.layers.get? name).any (·.kind = kind)

/-- The innermost template that is being walked. -/
def document? (session : Session) (chain : Chain) : Option (Text × LayerKind) :=
  chain.findSome? fun name =>
    (session.layers.get? name).bind fun layer =>
      if layer.kind.isDocument then some (name, layer.kind) else none

/-- The page: all layers, one after the other. A body that was never closed is not part of it. -/
def page (session : Session) : Text := session.layers.join

end Session

namespace Render

/-- Changes the stack of layers. -/
def modifyLayers (f : Stack → Stack) : Render Unit :=
  modify fun session => { session with layers := f session.layers }

/-- Opens a capture. -/
def beginCapture (construct : Construct) : Render Unit := do
  let capture ← liftExcept (Capture.begin (← get).capture construct)
  modify fun session => { session with capture := some capture }
where
  /-- A result as a part of a render. -/
  liftExcept : Except Error Capture → Render Capture
    | .ok capture => pure capture
    | .error e => throw e

/-- Counts a layer among those being walked for as long as part of a render works on it, also if
that fails. -/
def entering (name : Text) (part : Render Unit) : Render Unit :=
  fun session =>
    let (result, session) := part { session with active := name :: session.active }
    (result, { session with active := session.active.tail })

/-- Walks a layer that is on the stack for as long as it is walked, and returns its text. The layer
gets a name that is free. -/
def transient (walk : Walker) (chain : Chain) (name : Text) (layer : Layer) : Render Text :=
  fun session =>
    let label := layer.kind.label?.getD "layer".toList
    let fullName := Stack.fullName (some label) (session.layers.freshName label name)
    let (result, session) := walk (fullName :: chain)
      { session with layers := session.layers.insert fullName layer }
    let text := ((session.layers.get? fullName).map Layer.render).getD []
    (result.map fun _ => text, { session with layers := session.layers.erase fullName })

/-- Takes part of a render and gives up the capture that it leaves open, also if it fails. -/
def abandoning {α : Type} (part : Render α) : Render α :=
  fun session =>
    let (result, session) := part session
    (result, { session with capture := none })

end Render

end Stencil
