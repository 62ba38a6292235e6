import Stencil.Proofs.Layer.Stack
import Stencil.Proofs.Render.Guarantee
import Stencil.Proofs.Render.Settled

/-!
# What part of a render leaves alone

While a line is handled, the layers that are being walked stay as they are. Every other layer keeps
its place under its name, and the only thing that happens to it is that slots of it are filled
(`Layer.Fills`). Parents that are taken in stand under names of their own, with their source as it
is or with slots of it filled, and wait for their turn in the order in which they came.

`Session.Spares` says this of the sessions before and after. It is a guarantee
(`guarantee_spares`), and `spares_walked` says what it comes to for the walk of a whole layer, which
writes to no other layer than its own.
-/

namespace Stencil

/-- **Slots of a layer are filled**, one after the other. -/
inductive Layer.Fills (layer : Layer) : Layer → Prop
  | refl : Fills layer layer
  | fill {filled : Layer} {name : Text} {slot : Slot} (h : Fills layer filled)
    (hs : filled.slot? name = some slot) (content : Text) :
    Fills layer (filled.fillSlot slot content)

theorem Layer.Fills.trans {layer filled last : Layer} (h : layer.Fills filled)
    (h' : filled.Fills last) : layer.Fills last := by
  induction h' with
  | refl => exact h
  | fill _ hs content ih => exact ih.fill hs content

namespace Session

/-- **The layers are told apart** by their names, and those of parents are on the stack only once
the parent was extended. -/
structure Apart (session : Session) : Prop where
  names_nodup : session.layers.names.Nodup
  mem_extended : ∀ parent, parentLayer parent ∈ session.layers.names → parent ∈ session.extended

/-- **What is left alone** between two sessions, apart from the layers with the names `written`.
Those of the chain stay as they are, and slots of others may have been filled. -/
structure Spares (engine : Engine) (chain : Chain) (written : List Text) (session after : Session) :
    Prop where
  apart : after.Apart
  taken : ∃ parents, after.extended = parents ++ session.extended ∧
    after.pending = session.pending ++ ((parentLayers engine parents).map Prod.fst).reverse
  sources : ∀ parent lines, parent ∈ after.extended → parent ∉ session.extended →
    engine.loadLines parent [] = .ok lines →
    ∃ layer, after.layers.get? (parentLayer parent) = some layer ∧
      (Layer.ofSource .parent lines).Fills layer
  spared : ∀ name layer, session.layers.get? name = some layer → name ∉ written →
    ∃ filled, after.layers.get? name = some filled ∧ layer.Fills filled ∧
      (name ∈ chain → filled = layer)

variable {engine : Engine} {chain : Chain} {written : List Text} {session between after : Session}
  {name parent : Text} {layer : Layer}

namespace Apart

theorem not_mem_names (h : session.Apart) (hx : parent ∉ session.extended) :
    parentLayer parent ∉ session.layers.names :=
  fun hm => hx (h.mem_extended parent hm)

/-- The names are those from before, or fewer. -/
theorem of_sublist (h : session.Apart) (hn : after.layers.names.Sublist session.layers.names)
    (hx : session.extended ⊆ after.extended) : after.Apart where
  names_nodup := h.names_nodup.sublist hn
  mem_extended parent hm := hx (h.mem_extended parent (hn.subset hm))

theorem topped (h : session.Apart) (hk : layer.kind ≠ .parent) (name : Text) :
    (session.topped name layer).Apart := by
  have hfree := session.contains_transientName name layer
  refine ⟨Stack.nodup_names_insert h.names_nodup .., fun parent hm => ?_⟩
  rw [Session.topped, placing, Stack.insert_of_not_contains hfree, Stack.names, List.map_append,
    List.mem_append, List.map_singleton, List.mem_singleton] at hm
  rcases hm with hm | hm
  · exact h.mem_extended parent hm
  · exact absurd hm.symm (fullName_ne_parentLayer hk _ parent)

theorem taking (h : session.Apart) (parent : Text) (lines : List Text) :
    (session.taking parent lines).Apart := by
  have hsub := Stack.names_erase_sublist session.layers (parentLayer parent)
  refine ⟨Stack.nodup_names_insertFront h.names_nodup .., fun p hm => ?_⟩
  rcases List.mem_cons.1 hm with heq | hm
  · exact parentLayer_injective heq ▸ List.mem_cons_self
  · exact List.mem_cons_of_mem _ (h.mem_extended p (hsub.subset hm))

end Apart

theorem Stands.isApart {active : Chain} {tail : List (Text × LayerKind)} {taken : Nat}
    (h : session.Stands engine active tail taken) : session.Apart where
  names_nodup := h.names_nodup
  mem_extended := by
    intro parent hm
    rw [Stack.names_eq_outline, h.outline_eq, List.map_append, List.mem_append] at hm
    rcases hm with hm | hm
    · obtain ⟨p, hp, -, heq⟩ := mem_map_parentLayers.1 hm
      exact parentLayer_injective heq ▸ hp
    · exact absurd hm (h.apart parent)

theorem parentLayers_append (engine : Engine) (parents extended : List Text) :
    parentLayers engine (parents ++ extended) =
      parentLayers engine parents ++ parentLayers engine extended := by
  simp [parentLayers]

namespace Spares

/-- Layers are left alone by what changes neither them nor the parents. -/
theorem same (h : session.Apart) (hl : after.layers = session.layers)
    (hx : after.extended = session.extended) (hp : after.pending = session.pending) :
    session.Spares engine chain written after where
  apart := h.of_sublist (by rw [hl]) (by rw [hx]; exact List.Subset.refl _)
  taken := ⟨[], by simpa using hx, by simpa [parentLayers] using hp⟩
  sources _ _ hm hnot := absurd (hx ▸ hm) hnot
  spared _ layer hg _ := ⟨layer, by rw [hl, hg], .refl, fun _ => rfl⟩

theorem mono (h : session.Spares engine chain [] after) (written : List Text) :
    session.Spares engine chain written after :=
  ⟨h.apart, h.taken, h.sources, fun name layer hg _ => h.spared name layer hg (by simp)⟩

/-- **What is left alone twice.** A layer that is written to is not that of a new parent. -/
theorem trans (h : session.Spares engine chain written between)
    (h' : between.Spares engine chain written after)
    (hw : ∀ parent, parentLayer parent ∈ written → parent ∈ session.extended) :
    session.Spares engine chain written after where
  apart := h'.apart
  taken := by
    obtain ⟨parents, hx, hp⟩ := h.taken
    obtain ⟨parents', hx', hp'⟩ := h'.taken
    refine ⟨parents' ++ parents, by rw [hx', hx, List.append_assoc], ?_⟩
    rw [hp', hp, parentLayers_append, List.map_append, List.reverse_append, List.append_assoc]
  sources := by
    intro parent lines hm hnot hl
    by_cases hb : parent ∈ between.extended
    · obtain ⟨layer, hg, hf⟩ := h.sources parent lines hb hnot hl
      obtain ⟨filled, hg', hf', -⟩ :=
        h'.spared _ layer hg fun hwritten => hnot (hw parent hwritten)
      exact ⟨filled, hg', hf.trans hf'⟩
    · exact h'.sources parent lines hm hb hl
  spared := by
    intro name layer hg hnot
    obtain ⟨filled, hg', hf, hc⟩ := h.spared name layer hg hnot
    obtain ⟨last, hg'', hf', hc'⟩ := h'.spared name filled hg' hnot
    exact ⟨last, hg'', hf.trans hf', fun hm => (hc' hm).trans (hc hm)⟩

theorem refused (h : session.Apart) {e : Error} (hl : engine.loadLines parent [] = .error e) :
    session.Spares engine chain written { session with extended := parent :: session.extended } where
  apart := h.of_sublist (List.Sublist.refl _) (List.subset_cons_self parent session.extended)
  taken := ⟨[parent], rfl, by simp [parentLayers, hl, Except.isOk, Except.toBool]⟩
  sources := by
    intro p lines hm hnot hl'
    rcases List.mem_cons.1 hm with rfl | hm
    · rw [hl] at hl'
      cases hl'
    · exact absurd hm hnot
  spared _ layer hg _ := ⟨layer, hg, .refl, fun _ => rfl⟩

/-- **A parent is taken in** under a name that no layer has. -/
theorem taking (h : session.Apart) (hx : parent ∉ session.extended) {lines : List Text}
    (hl : engine.loadLines parent [] = .ok lines) :
    session.Spares engine chain written (session.taking parent lines) where
  apart := h.taking parent lines
  taken := ⟨[parent], rfl, by simp [Session.taking, parentLayers, hl, Except.isOk, Except.toBool]⟩
  sources := by
    intro p lines' hm hnot hl'
    rcases List.mem_cons.1 hm with rfl | hm
    · obtain rfl := Except.ok.inj (hl.symm.trans hl')
      exact ⟨_, Stack.get?_insertFront_self .., .refl⟩
    · exact absurd hm hnot
  spared := by
    intro name layer hg _
    have hne : name ≠ parentLayer parent := by
      rintro rfl
      exact h.not_mem_names hx (Stack.mem_names_of_get? hg)
    exact ⟨layer, by rw [Session.taking, Stack.get?_insertFront_of_ne hne, hg], .refl, fun _ => rfl⟩

/-- **A slot is filled** of a layer outside the chain. -/
theorem filling (h : session.Apart) {target : Text} {slot : Slot}
    (hs : Render.slot? session.layers chain name = some (target, slot)) (content : Text) :
    session.Spares engine chain written
      { session with layers := session.layers.modify target fun l => l.fillSlot slot content } where
  apart := h.of_sublist (by rw [Stack.names_modify]) (List.Subset.refl _)
  taken := ⟨[], rfl, by simp [parentLayers]⟩
  sources _ _ hm hnot := absurd hm hnot
  spared := by
    intro other layer hg _
    obtain ⟨⟨n, l⟩, hmem, hfound⟩ := List.exists_of_findSome?_eq_some hs
    simp only at hfound
    cases hout : chain.contains n with
    | true => rw [hout] at hfound; cases hfound
    | false =>
      rw [hout, if_neg Bool.false_ne_true] at hfound
      obtain ⟨_, hslot, heq⟩ := Option.map_eq_some_iff.1 hfound
      cases heq
      rw [Stack.get?_modify]
      split
      · next hname =>
        subst hname
        have hthere := Stack.get?_of_mem h.names_nodup hmem
        obtain rfl := Option.some.inj (hg.symm.trans hthere)
        rw [hthere]
        refine ⟨_, rfl, .fill .refl hslot content, fun hm => ?_⟩
        rw [List.contains_iff_mem.2 hm] at hout
        cases hout
      · exact ⟨layer, hg, .refl, fun _ => rfl⟩

theorem stored (h : session.Spares engine chain [name] after)
    (hw : ∀ parent, parentLayer parent = name → parent ∈ session.extended) (position : Nat)
    (line : Line) : session.Spares engine chain [name] (after.write name position [line]) where
  apart := h.apart.of_sublist (by rw [Session.write, Stack.names_write]) (List.Subset.refl _)
  taken := h.taken
  sources := by
    intro parent lines hm hnot hl
    obtain ⟨layer, hg, hf⟩ := h.sources parent lines hm hnot hl
    have hne : parentLayer parent ≠ name := fun heq => hnot (hw parent heq)
    rw [Session.write, Stack.get?_write, if_neg hne]
    exact ⟨layer, hg, hf⟩
  spared := by
    intro other layer hg hnot
    obtain ⟨filled, hg', hf, hc⟩ := h.spared other layer hg hnot
    rw [Session.write, Stack.get?_write, if_neg (by simpa using hnot)]
    exact ⟨filled, hg', hf, hc⟩

/-- **A layer that was put on top is taken off again.** -/
theorem removing (hk : layer.kind ≠ .parent)
    (hs : (session.topped name layer).Spares engine (session.transientName name layer :: chain)
      [session.transientName name layer] after) :
    session.Spares engine chain [] (after.removing (session.transientName name layer)) where
  apart := hs.apart.of_sublist (Stack.names_erase_sublist ..) (List.Subset.refl _)
  taken := hs.taken
  sources := by
    intro parent lines hm hnot hl
    obtain ⟨source, hg, hf⟩ := hs.sources parent lines hm hnot hl
    have hne : parentLayer parent ≠ session.transientName name layer :=
      (fullName_ne_parentLayer hk _ parent).symm
    exact ⟨source, (Stack.get?_erase_of_ne hne _).trans hg, hf⟩
  spared := by
    intro other old hg _
    have hne : other ≠ session.transientName name layer :=
      Stack.ne_of_get? (session.contains_transientName name layer) hg
    have htopped : (session.topped name layer).layers.get? other = some old :=
      (Stack.get?_insert_of_ne _ hne _).trans hg
    obtain ⟨filled, hg', hf, hc⟩ := hs.spared other old htopped (by simpa using hne)
    exact ⟨filled, (Stack.get?_erase_of_ne hne _).trans hg', hf,
      fun hm => hc (List.mem_cons_of_mem _ hm)⟩

end Spares

end Session

namespace Render

variable {engine : Engine} {outer : Chain} {name : Text}
  {session after : Session}

/-- What part of a render leaves alone, if the layers are told apart before it. -/
def Sparing (engine : Engine) (chain : Chain) (session after : Session) : Prop :=
  session.Apart → session.Spares engine chain [] after

theorem spares_course {chain : Chain} (h : Course (Sparing engine) name chain session after)
    (ha : session.Apart) (hw : ∀ parent, parentLayer parent = name → parent ∈ session.extended) :
    session.Spares engine chain [name] after := by
  induction h with
  | start => exact .same ha rfl rfl rfl
  | handled _ hg ih =>
    exact ih.trans ((hg ih.apart).mono [name]) fun p hp => hw p (List.mem_singleton.1 hp)
  | stored _ position line ih => exact ih.stored hw position line

/-- **The walk of a layer** writes to that layer, and leaves the others alone. -/
theorem spares_walked (h : Walked (Sparing engine) name outer session after) (ha : session.Apart)
    (hw : ∀ parent, parentLayer parent = name → parent ∈ session.extended) :
    session.Spares engine (name :: outer) [name] after := by
  obtain ⟨last, hcourse, rfl⟩ := h
  have hentered : (session.entered name).Apart := ⟨ha.names_nodup, ha.mem_extended⟩
  have hspares := spares_course hcourse hentered hw
  exact ⟨⟨hspares.apart.names_nodup, hspares.apart.mem_extended⟩, hspares.taken, hspares.sources,
    hspares.spared⟩

/-- **Every part of a render leaves the other layers alone.** -/
theorem guarantee_spares (engine : Engine) : Guarantee engine (Sparing engine) where
  refl _ _ ha := .same ha rfl rfl rfl
  trans h h' ha := (h ha).trans (h' (h ha).apart) (by simp)
  capturing _ _ _ ha := .same ha rfl rfl rfl
  refused _ _ _ _ _ hl ha := .refused ha hl
  taking _ _ _ _ hx hl ha := .taking ha hx hl
  filling hs content ha := .filling ha hs content
  transient := by
    intro chain session after name layer hk h ha
    refine .removing hk (spares_walked h (ha.topped hk name) fun parent heq => ?_)
    exact absurd heq.symm (fullName_ne_parentLayer hk _ parent)

end Render

end Stencil
