import Stencil.Render.Walk

/-!
# Pages

To render a page is to walk the layer of the template asked for, then those of its parents in the
order in which they were extended, and to join all layers. Parents are in front, so that a parent's
text comes before whatever is left of the template that extends it.
-/

namespace Stencil

/-- The name of the layer of the template asked for. -/
def mainName : Text := "main".toList

namespace Render

variable (engine : Engine) (context : Context)

/-- Walks the layers of the parents, of which there may be at most `count`. -/
def walkParents (depth : Nat) : (count : Nat) → Render Unit
  | 0 => do
    unless (← get).pending.isEmpty do throw .tooDeep
  | count + 1 => do
    match (← get).pending with
    | [] => return
    | name :: rest =>
      modify fun session => { session with pending := rest }
      walk engine context depth (name :: (← get).active)
      walkParents depth count

/-- Loads a template into the session and walks it and its parents. -/
def load (depth : Nat) (name : Text) : Render Unit := do
  let lines ← source engine name []
  modifyLayers fun layers => layers.insert mainName (Layer.ofSource .main lines)
  walk engine context depth (mainName :: (← get).active)
  modifyLayers fun layers => layers.clean mainName
  walkParents engine context depth depth

end Render

namespace Engine

/-- The page of a template, with layers nested at most `depth` deep. -/
def renderWithin (engine : Engine) (depth : Nat) (name : Text) (context : Context) :
    Except Error Text :=
  match (Render.load engine context depth name).run.run {} with
  | (.ok (), session) => .ok session.page
  | (.error e, _) => .error e

/-- How deep layers may be nested. Each nesting that a template spells out takes some of its
characters, so that this is enough unless a page nests without end. -/
def depthLimit (engine : Engine) : Nat := engine.sourceSize + 1000

/-- The page of a template. -/
def render (engine : Engine) (name : Text) (context : Context) : Except Error Text :=
  engine.renderWithin engine.depthLimit name context

/-- The page for a status code. Without a template for it, it is a plain line. -/
def renderErrorPage (engine : Engine) (code : Nat) (subtitle message : Text) : Except Error Text :=
  let context := Context.ofList
    [("code".toList, .int code), ("subtitle".toList, .str subtitle),
      ("message".toList, .str message)]
  match engine.render (engine.errorDir ++ '/' :: errorTemplate) context with
  | .error (.templateNotFound _) =>
    .ok (Text.ofNat code ++ ' ' :: subtitle ++ ": ".toList ++ message)
  | result => result

end Engine

end Stencil
