import Stencil.Proofs.Inheritance.Fill
import Stencil.Proofs.Layer.Slot

/-!
# Slots that are filled again

A slot that was filled is still a slot: its tags stand where they stood, with the old body consumed
between them (`slot?_fillSlot`). Filling it again consumes the content before, and the layer
reads as if that content had never been there. `Layer.Refills` is what one filling after another
keeps (`Refills.fill`): whatever a slot was filled with, only the last content shows.
-/

namespace Stencil

open Nesting

namespace Layer

variable {layer other : Layer} {name : Text} {slot : Slot}

/-! ## A slot that is filled -/

/-- What stands between the tags of a slot that is filled opens and closes nothing. -/
theorem uncounted_filled (d : Directive) (body : List Line) (closing : Line) (content : Text) :
    ∀ line ∈ body.map Line.blank ++ [contentLine body closing content], line.Uncounted d := by
  intro line hl
  rcases List.mem_append.1 hl with hl | hl
  · obtain ⟨l, -, rfl⟩ := List.mem_map.1 hl
    exact uncounted_blank d l
  · rw [List.mem_singleton.1 hl]
    exact Line.uncounted_of_rendered rfl d

theorem closesAt_filled {d : Directive} {body : List Line} {closing : Line}
    (h : ClosesAt d 1 body closing) (content : Text) :
    ClosesAt d 1 (body.map Line.blank ++ [contentLine body closing content]) closing := by
  have hfilled := balanced_of_uncounted (uncounted_filled d body closing content)
  have h' := (h.balanced.closesAt_congr hfilled [] []).1 (by simpa using h)
  simpa using h'

/-- **A slot that is filled is still a slot**, with one line more between its tags. -/
theorem slot?_fillSlot (h : layer.slot? name = some slot) (content : Text) :
    (layer.fillSlot slot content).slot? name = some ⟨slot.opening, slot.closing + 1⟩ := by
  obtain ⟨before, opening, body, closing, behind, hl, rfl, hbefore, ho, hc⟩ := slot?_eq_some_iff.1 h
  obtain ⟨kind, ls⟩ := layer
  obtain rfl : ls = _ := hl
  rw [fillSlot_eq]
  refine slot?_eq_some_iff.2 ⟨before, opening, body.map Line.blank ++ [contentLine body closing content],
    closing, behind, by simp, ?_, hbefore, ho, closesAt_filled hc content⟩
  simp [Nat.add_assoc]

theorem contentLine_refilled (body : List Line) (closing : Line) (content content' : Text) :
    contentLine (body.map Line.blank ++ [contentLine body closing content]) closing content' =
      contentLine body closing content' := by
  cases body <;> rfl

/-- The lines of a slot that is filled twice: the first content is consumed with the body. -/
theorem fillSlot_fillSlot (kind : LayerKind) (before : List Line) (opening : Line) (body : List Line)
    (closing : Line) (behind : List Line) (content content' : Text) :
    Layer.fillSlot ⟨kind, before ++ opening :: (body.map Line.blank ++
        contentLine body closing content :: closing :: behind)⟩
        ⟨before.length, before.length + 1 + body.length + 1⟩ content' =
      ⟨kind, before ++ opening :: (body.map Line.blank ++
        (contentLine body closing content).blank ::
          contentLine body closing content' :: closing :: behind)⟩ := by
  have h := fillSlot_eq kind before opening (body.map Line.blank ++
    [contentLine body closing content]) closing behind content'
  have hblank : Line.blank ∘ Line.blank = Line.blank := rfl
  rw [contentLine_refilled, List.map_append, List.map_map, hblank] at h
  simpa [Nat.add_assoc] using h

/-- The content that was consumed leaves nothing. -/
theorem cleanFrom_refilled (body : List Line) (closing : Line) (content content' : Text)
    (dropped : Bool) (tail : List Line) :
    cleanFrom dropped (body.map Line.blank ++ (contentLine body closing content).blank ::
        contentLine body closing content' :: tail) =
      cleanFrom dropped (body.map Line.blank ++ contentLine body closing content' :: tail) := by
  have hbody : ∀ line ∈ body.map Line.blank, line.discarded = true := by
    intro line hl
    obtain ⟨l, -, rfl⟩ := List.mem_map.1 hl
    exact Line.discarded_blank l
  have hglued : (contentLine body closing content).blank.glued =
      (contentLine body closing content').glued := rfl
  rw [cleanFrom_discarded hbody, cleanFrom_discarded hbody,
    cleanFrom_discarded_glued (Line.discarded_blank _) hglued]

/-- The tags of a slot are two lines of the layer. -/
theorem bounds_of_slot? (h : layer.slot? name = some slot) :
    slot.opening < slot.closing ∧ slot.closing < layer.lines.length := by
  obtain ⟨before, opening, body, closing, behind, hl, rfl, -⟩ := slot?_eq_some_iff.1 h
  simp only [hl, List.length_append, List.length_cons]
  omega

theorem lines_fillSlot (layer : Layer) (slot : Slot) (content : Text) :
    (layer.fillSlot slot content).lines =
      layer.lines.take (slot.opening + 1) ++
        ((layer.lines.take slot.closing).drop (slot.opening + 1)).map Line.blank ++
        Line.fill { text := [], glued := layer.slotGlued slot } content ::
          layer.lines.drop slot.closing := rfl

section Positions

variable (hlo : slot.opening < slot.closing) (hhi : slot.closing < layer.lines.length)
  (content : Text)
include hlo hhi

theorem length_head : (layer.lines.take (slot.opening + 1)).length = slot.opening + 1 := by
  rw [List.length_take]
  omega

theorem length_filled : (layer.lines.take (slot.opening + 1) ++
    ((layer.lines.take slot.closing).drop (slot.opening + 1)).map Line.blank).length =
      slot.closing := by
  rw [List.length_append, length_head hlo hhi, List.length_map, List.length_drop, List.length_take]
  omega

theorem take_fillSlot : (layer.fillSlot slot content).lines.take (slot.opening + 1) =
    layer.lines.take (slot.opening + 1) := by
  rw [lines_fillSlot, List.append_assoc, List.take_left' (length_head hlo hhi)]

theorem drop_fillSlot : (layer.fillSlot slot content).lines.drop (slot.closing + 1) =
    layer.lines.drop slot.closing := by
  rw [lines_fillSlot, ← List.drop_drop, List.drop_left' (length_filled hlo hhi)]
  rfl

theorem exists_content_fillSlot : ∃ line, (layer.fillSlot slot content).lines[slot.closing]? =
    some line ∧ line.rendered = true ∧ line.text = content := by
  have hlength := length_filled hlo hhi
  rw [lines_fillSlot, List.getElem?_append_right (Nat.le_of_eq hlength), hlength, Nat.sub_self]
  exact ⟨_, rfl, rfl, rfl⟩

theorem exists_discarded_fillSlot {i : Nat} (hi : slot.opening < i) (hi' : i < slot.closing) :
    ∃ line, (layer.fillSlot slot content).lines[i]? = some line ∧ line.discarded = true := by
  have hlength := length_filled hlo hhi
  have hhead := length_head hlo hhi
  rw [lines_fillSlot, List.getElem?_append_left (hi'.trans_eq hlength.symm),
    List.getElem?_append_right (hhead.trans_le hi), hhead, List.getElem?_map, List.getElem?_drop,
    List.getElem?_take, if_pos (by omega), List.getElem?_eq_getElem (by omega), Option.map_some]
  exact ⟨_, rfl, Line.discarded_blank _⟩

end Positions

/-- The content that a slot was filled with before leaves nothing. -/
theorem clean_fillSlot_fillSlot (h : layer.slot? name = some slot) (content content' : Text) :
    ((layer.fillSlot slot content).fillSlot ⟨slot.opening, slot.closing + 1⟩ content').clean =
      (layer.fillSlot slot content').clean := by
  obtain ⟨before, opening, body, closing, behind, hl, rfl, -, ho, -⟩ := slot?_eq_some_iff.1 h
  obtain ⟨kind, ls⟩ := layer
  obtain rfl : ls = _ := hl
  have hkept := discarded_of_opensBlock ho
  rw [fillSlot_eq, fillSlot_eq, fillSlot_fillSlot]
  unfold clean
  rw [cleanFrom_append_cons hkept, cleanFrom_refilled, ← cleanFrom_append_cons hkept]

/-- **Filling a slot.** The tags stand where they stood, and nothing is changed before the one or
behind the other; between them every line is discarded but the last, which is the content as finished
output. The slot can be filled again, and then it is as if only the last content had been put in. -/
theorem fillSlot_refillable (h : layer.slot? name = some slot) (content content' : Text) :
    slot.opening < slot.closing ∧ slot.closing < layer.lines.length ∧
    (layer.fillSlot slot content).slot? name = some ⟨slot.opening, slot.closing + 1⟩ ∧
    (layer.fillSlot slot content).lines.take (slot.opening + 1) =
      layer.lines.take (slot.opening + 1) ∧
    (layer.fillSlot slot content).lines.drop (slot.closing + 1) = layer.lines.drop slot.closing ∧
    (∀ i, slot.opening < i → i < slot.closing →
      ∃ line, (layer.fillSlot slot content).lines[i]? = some line ∧ line.discarded = true) ∧
    (∃ line, (layer.fillSlot slot content).lines[slot.closing]? = some line ∧
      line.rendered = true ∧ line.text = content) ∧
    ((layer.fillSlot slot content).fillSlot ⟨slot.opening, slot.closing + 1⟩ content').clean =
      (layer.fillSlot slot content').clean := by
  obtain ⟨hlo, hhi⟩ := bounds_of_slot? h
  exact ⟨hlo, hhi, slot?_fillSlot h content, take_fillSlot hlo hhi content,
    drop_fillSlot hlo hhi content, fun i => exists_discarded_fillSlot hlo hhi content,
    exists_content_fillSlot hlo hhi content, clean_fillSlot_fillSlot h content content'⟩

/-- A block within a block, on one line with what stands around it. -/
def nestedBlocks : Layer :=
  ofSource .parent
    ["(\x7b% block a %\x7d\x7b% block b %\x7d\x7b% endblock %\x7d\x7b% endblock %\x7d)".toList]

/-- A content that looks like the tag that closes the block. -/
theorem fillSlot_refillable_closing :
    nestedBlocks.slot? "a".toList = some ⟨1, 4⟩ ∧
      (nestedBlocks.fillSlot ⟨1, 4⟩ "\x7b% endblock %\x7d".toList).slot? "a".toList =
        some ⟨1, 5⟩ ∧
      ((nestedBlocks.fillSlot ⟨1, 4⟩ "\x7b% endblock %\x7d".toList).fillSlot ⟨1, 5⟩
        "new".toList).clean = (nestedBlocks.fillSlot ⟨1, 4⟩ "new".toList).clean := by
  have hslot : nestedBlocks.slot? "a".toList = some ⟨1, 4⟩ := by decide +kernel
  obtain ⟨-, -, hfilled, -, -, -, -, htwice⟩ :=
    fillSlot_refillable hslot "\x7b% endblock %\x7d".toList "new".toList
  exact ⟨hslot, hfilled, htwice⟩

/-- **A slot that is filled** is still a slot, and filling it again reads as if it had been filled
for the first time. -/
theorem exists_slot?_fillSlot (h : layer.slot? name = some slot) (content : Text) :
    ∃ slot', (layer.fillSlot slot content).slot? name = some slot' ∧
      ∀ content', Alike ((layer.fillSlot slot content).fillSlot slot' content').lines
        (layer.fillSlot slot content').lines := by
  refine ⟨_, slot?_fillSlot h content, fun content' => ?_⟩
  obtain ⟨before, opening, body, closing, behind, hl, rfl, -⟩ := slot?_eq_some_iff.1 h
  obtain ⟨kind, ls⟩ := layer
  obtain rfl : ls = _ := hl
  rw [fillSlot_eq, fillSlot_eq, fillSlot_fillSlot]
  refine (Alike.refl before).append (.cons opening ?_)
  refine alike_of_cleanFrom fun dropped tail => ?_
  simpa using cleanFrom_refilled body closing content content' dropped (closing :: behind ++ tail)

/-! ## Fillings one after the other -/

/-- Filling the slot of that name reads the same in one layer as in the other. -/
def Refills (name : Text) (layer other : Layer) : Prop :=
  ∃ slot slot', layer.slot? name = some slot ∧ other.slot? name = some slot' ∧
    ∀ content, Alike (other.fillSlot slot' content).lines (layer.fillSlot slot content).lines

theorem Refills.refl (h : layer.slot? name = some slot) : Refills name layer layer :=
  ⟨slot, slot, h, h, fun _ => .refl _⟩

/-- **What one filling keeps.** -/
theorem Refills.fill (h : Refills name layer other) (hs : other.slot? name = some slot)
    (content : Text) : Refills name layer (other.fillSlot slot content) := by
  obtain ⟨first, slot', hfirst, hslot', halike⟩ := h
  obtain rfl := Option.some.inj (hs.symm.trans hslot')
  obtain ⟨again, hagain, hrefill⟩ := exists_slot?_fillSlot hs content
  exact ⟨first, again, hfirst, hagain, fun content' => (hrefill content').trans (halike content')⟩

end Layer

end Stencil
