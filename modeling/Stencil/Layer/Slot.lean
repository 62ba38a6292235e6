import Stencil.Layer.Basic
import Stencil.Tag.Directive

/-!
# Slots

A slot is a named block of a parent that a child's block of that name replaces: the lines between an
opening tag and the tag that closes it. Filling a slot leaves both tags in place, so that a template
further up or down the chain can still fill the same slot.
-/

namespace Stencil

/-- The positions of the two tags of a block in a layer. -/
structure Slot where
  /-- The line of the opening tag. -/
  opening : Nat
  /-- The line of the closing tag. -/
  closing : Nat
deriving DecidableEq, Repr

namespace Layer

/-- Whether the line opens the block of that name: it is not rendered, and the first opening tag on
it has the name for argument. -/
def opensBlock (name : Text) (line : Line) : Bool :=
  !line.rendered && (Directive.block.find? line.text).any (·.argument = name)

/-- The number of lines before the one that closes a body opened `depth` deep. Rendered lines do not
count; a line that both opens and closes does both. -/
def closingFrom? (depth : Nat) : List Line → Option Nat
  | [] => none
  | line :: rest =>
    if line.rendered then (closingFrom? depth rest).map (· + 1)
    else
      let depth := if Directive.block.occursIn line.text then depth + 1 else depth
      if Directive.block.closesIn line.text then
        if depth ≤ 1 then some 0 else (closingFrom? (depth - 1) rest).map (· + 1)
      else (closingFrom? depth rest).map (· + 1)

/-- The slot of that name: the first block that has it, if that block is closed. -/
def slot? (layer : Layer) (name : Text) : Option Slot := do
  let opening ← layer.lines.findIdx? (opensBlock name)
  let offset ← closingFrom? 1 (layer.lines.drop (opening + 1))
  return ⟨opening, opening + 1 + offset⟩

/-- Whether the content of a slot continues the line before it: as the first line of its body does,
or the closing tag if the body is empty. -/
def slotGlued (layer : Layer) (slot : Slot) : Bool :=
  let first := if slot.opening + 1 < slot.closing then slot.opening + 1 else slot.closing
  (layer.lines[first]?.map Line.glued).getD false

/-- The layer with the body of a slot consumed and `content` as a rendered line before the closing
tag. -/
def fillSlot (layer : Layer) (slot : Slot) (content : Text) : Layer :=
  let before := layer.lines.take (slot.opening + 1)
  let body := (layer.lines.take slot.closing).drop (slot.opening + 1)
  let filled := Line.fill { text := [], glued := layer.slotGlued slot } content
  { layer with lines := before ++ body.map Line.blank ++ filled :: layer.lines.drop slot.closing }

end Layer

end Stencil
