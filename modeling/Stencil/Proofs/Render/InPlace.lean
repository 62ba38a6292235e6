import Stencil.Proofs.Render.Outcome

/-!
# Where blocks show in place

A block shows where it stands if it is inside another block, or if no other layer has a slot for it
and the template is in front of all others. `Session.InPlace` says that this holds whatever the name
of the block; it depends on the kinds and the names of the layers, so that storing a line of a layer
being walked keeps it (`inPlace_write`), and so does the layer of a body (`inPlace_insert`).
-/

namespace Stencil

namespace Session

/-- Whatever its name, a block that is closed shows where it stands. -/
def InPlace (session : Session) (chain : Chain) : Prop :=
  session.isInside chain .block = true ∨
    (∀ name, Render.slot? session.layers chain name = none) ∧
      Render.showsInPlace session chain = true

variable {session session' : Session} {chain : Chain}

theorem isInside_congr {kind : LayerKind}
    (h : ∀ name ∈ chain, (session.layers.get? name).map Layer.kind =
      (session'.layers.get? name).map Layer.kind) :
    session.isInside chain kind = session'.isInside chain kind := by
  have key : ∀ layer? : Option Layer, layer?.any (·.kind = kind) =
      (layer?.map Layer.kind).any (· = kind) := by
    intro layer?
    cases layer? <;> rfl
  unfold isInside
  rw [Bool.eq_iff_iff, List.any_eq_true, List.any_eq_true]
  refine exists_congr fun name => and_congr_right fun hname => ?_
  rw [key, key, h name hname]

theorem document?_congr
    (h : ∀ name ∈ chain, (session.layers.get? name).map Layer.kind =
      (session'.layers.get? name).map Layer.kind) :
    session.document? chain = session'.document? chain := by
  have key : ∀ (name : Text) (layer? : Option Layer),
      (layer?.bind fun layer =>
        if layer.kind.isDocument then some (name, layer.kind) else none) =
      (layer?.map Layer.kind).bind fun kind =>
        if kind.isDocument then some (name, kind) else none := by
    intro name layer?
    cases layer? <;> rfl
  unfold document?
  induction chain with
  | nil => rfl
  | cons name chain ih =>
    rw [List.findSome?_cons, List.findSome?_cons, key, key, h name (by simp),
      ih fun n hn => h n (List.mem_cons_of_mem _ hn)]

theorem findSome?_congr {α γ : Type} {f g : α → Option γ} {l : List α}
    (h : ∀ a ∈ l, f a = g a) : l.findSome? f = l.findSome? g := by
  induction l with
  | nil => rfl
  | cons a l ih =>
    rw [List.findSome?_cons, List.findSome?_cons, h a (by simp),
      ih fun b hb => h b (List.mem_cons_of_mem _ hb)]

theorem slot?_write {layers : Stack} {name : Text} (hn : name ∈ chain) (i : Nat)
    (out : List Line) (slot : Text) :
    Render.slot? (layers.write name i out) chain slot = Render.slot? layers chain slot := by
  cases layers with | mk entries =>
  unfold Render.slot? Stack.write Stack.modify
  induction entries with
  | nil => rfl
  | cons entry entries ih =>
    rw [List.map_cons, List.findSome?_cons, List.findSome?_cons, ih]
    by_cases he : entry.1 = name
    · simp [he, hn]
    · simp [he]

theorem inPlace_write (h : session.InPlace chain) {name : Text} (hn : name ∈ chain) (i : Nat)
    (out : List Line) :
    (session.write name i out).InPlace chain := by
  have hkind : ∀ n ∈ chain, (session.layers.get? n).map Layer.kind =
      ((session.layers.write name i out).get? n).map Layer.kind := by
    intro n _
    rw [Stack.get?_write]
    split
    · next he =>
      subst he
      cases session.layers.get? n <;> simp
    · rfl
  rcases h with h | ⟨hs, hd⟩
  · left
    rw [← h]
    exact (isInside_congr hkind).symm
  · right
    refine ⟨fun slot => ?_, ?_⟩
    · rw [← hs slot]
      exact slot?_write hn i out slot
    · rw [← hd]
      unfold Render.showsInPlace
      rw [← document?_congr hkind]
      simp only [write, Stack.position?_congr (Stack.names_write session.layers name i out)]

theorem inPlace_insert (h : session.InPlace chain) {full : Text} {layer : Layer}
    (hf : session.layers.contains full = false) (hk : layer.kind.isDocument = false) :
    InPlace { session with layers := session.layers.insert full layer } (full :: chain) := by
  have hnone : session.layers.get? full = none := Stack.get?_eq_none_iff.2 hf
  have hsome : (session.layers.insert full layer).get? full = some layer :=
    Stack.get?_insert_self ..
  rcases h with h | ⟨hs, hd⟩
  · left
    obtain ⟨name, hname, hblock⟩ := List.any_eq_true.1 h
    have hne : name ≠ full := by
      rintro rfl
      rw [hnone] at hblock
      cases hblock
    refine List.any_eq_true.2 ⟨name, List.mem_cons_of_mem _ hname, ?_⟩
    simpa only [Stack.get?_insert_of_ne _ hne] using hblock
  · right
    have hdoc : document? { session with layers := session.layers.insert full layer }
        (full :: chain) = session.document? chain := by
      unfold document?
      rw [List.findSome?_cons]
      simp only [hsome, Option.bind_some, hk]
      refine findSome?_congr fun name _ => ?_
      by_cases hne : name = full
      · rw [hne, hsome, hnone]
        simp [hk]
      · rw [Stack.get?_insert_of_ne _ hne]
    refine ⟨fun slot => ?_, ?_⟩
    · rw [← hs slot]
      unfold Render.slot?
      rw [Stack.insert_of_not_contains hf, List.findSome?_append]
      have hlast : List.findSome? (fun x : Text × Layer =>
          if (full :: chain).contains x.1 then none
          else (x.2.slot? slot).map (x.1, ·)) [(full, layer)] = none := by
        simp
      refine (congrArg _ hlast).trans ?_
      rw [Option.or_none]
      refine findSome?_congr fun entry he => ?_
      have hne := Stack.not_contains hf entry he
      simp [hne]
    · unfold Render.showsInPlace at hd ⊢
      rw [hdoc]
      split
      · rfl
      · rfl
      · next name kind hkind hdocument =>
        rw [hdocument] at hd
        have hpos : session.layers.position? name = some 0 := by
          cases kind with
          | inclusion => exact (hkind rfl).elim
          | _ => simpa using hd
        have hpos' : (session.layers.insert full layer).position? name = some 0 := by
          unfold Stack.position? at hpos ⊢
          rw [Stack.insert_of_not_contains hf, List.findIdx?_append, hpos]
          rfl
        simp only [hpos']
        rfl

end Session

end Stencil
