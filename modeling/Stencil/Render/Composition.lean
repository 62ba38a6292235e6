import Stencil.Layer.Slot
import Stencil.Render.Session

/-!
# Composing templates

A template takes in others in two ways. An inclusion puts the page of a partial template in the
place of a tag; one that cannot be had, or that is being included already, leaves a remark instead.
An extended template becomes a layer in front of all others, and waits for its turn; the blocks of
the template that extends it fill the slots of their names.
-/

namespace Stencil.Render

variable (engine : Engine)

/-- The lines of a template as a part of a render. -/
def source (name : Text) (subdirs : List Text) : Render (List Text) :=
  match engine.loadLines name subdirs with
  | .ok lines => pure lines
  | .error e => throw e

/-- Takes in the parent that a line names, and returns the line without the tag. -/
def inherit (line : Line) : Render Line := do
  match Directive.inherits.find? line.text with
  | none => return line
  | some tag =>
    let parent := unquote tag.argument
    if (← get).extended.contains parent then throw (.inheritanceCycle parent)
    modify fun session => { session with extended := parent :: session.extended }
    let lines ← source engine parent []
    let name := Stack.fullName LayerKind.parent.label? parent
    modify fun session => { session with
      layers := session.layers.insertFront name (Layer.ofSource .parent lines)
      pending := session.pending ++ [name] }
    return line.edit (Directive.inherits.pattern.dropFirst line.text)

/-- What stands in the place of an inclusion that is refused. -/
def refusal (name : Text) : Text := "Can't include \"".toList ++ name ++ ['"']

/-- The page of a partial template. -/
def included (walk : Walker) (chain : Chain) (name : Text) : Render Text :=
  if chain.contains (Stack.fullName LayerKind.inclusion.label? name) then return refusal name
  else
    match engine.loadLines name engine.includesDir with
    | .error _ => return refusal name
    | .ok lines => abandoning (transient walk chain name (Layer.ofSource .inclusion lines))

/-- The tags of a line, each with the text behind it, after inclusion. The last one is included
first. -/
def splice (walk : Walker) (chain : Chain) : List (Tag × Text) → Render Text
  | [] => return []
  | (tag, gap) :: rest => do
    let tail ← splice walk chain rest
    let page ← included engine walk chain (unquote tag.argument)
    return page ++ gap ++ tail

/-- The line with its inclusions replaced. -/
def includeLine (walk : Walker) (chain : Chain) (line : Line) : Render Line := do
  let (before, tags) := Pattern.cut (Directive.includes.pattern.scan line.text)
  return line.edit (before ++ (← splice engine walk chain tags))

/-- The first layer, outside the chain, with a slot of that name. -/
def slot? (layers : Stack) (chain : Chain) (name : Text) : Option (Text × Slot) :=
  layers.layers.findSome? fun (layerName, layer) =>
    if chain.contains layerName then none else (layer.slot? name).map (layerName, ·)

/-- Whether a block without a slot shows where it stands: in a partial template, and in the template
that is in front of all others. -/
def showsInPlace (session : Session) (chain : Chain) : Bool :=
  match session.document? chain with
  | none | some (_, .inclusion) => true
  | some (name, _) => session.layers.position? name == some 0

/-- Closes a block: its content goes into the slot of that name, or stays where the block stands, or
is dropped. A block inside another one moves together with it. -/
def endBlock (walk : Walker) (chain : Chain) (name : Text) (body : List Line) (line : Line) :
    Render Line := do
  let content ← transient walk chain name { kind := .block, lines := body }
  let session ← get
  if session.isInside chain .block then return line.fill content
  match slot? session.layers chain name with
  | some (layer, slot) =>
    modifyLayers fun layers => layers.modify layer fun l => l.fillSlot slot content
    return line.blank
  | none => return if showsInPlace session chain then line.fill content else line.blank

end Stencil.Render
