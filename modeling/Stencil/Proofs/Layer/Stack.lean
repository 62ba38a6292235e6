import Stencil.Layer.Stack
import Stencil.Listing

/-!
# Writing to layers

The lines of a layer are stored one after the other as they are handled; `Stack.write` is a run of
such steps. A layer that is put on the stack for a while gets a name that no layer has
(`contains_freshName`), so that taking it off again leaves the stack as it was (`erase_insert`).
What is done to one layer leaves the others as they are and in their order (`others_insert` and its
like), and what is done to other layers does not depend on the lines of a layer (`insert_modify` and
its like).
-/

namespace Stencil

/-! ## Layers -/

namespace Layer

/-- The layer with lines stored one after the other, from a position on. -/
def writeFrom (layer : Layer) : (position : Nat) → List Line → Layer
  | _, [] => layer
  | position, line :: rest =>
    (layer.modify position fun _ => line).writeFrom (position + 1) rest

@[simp] theorem kind_writeFrom (layer : Layer) (i : Nat) (out : List Line) :
    (layer.writeFrom i out).kind = layer.kind := by
  induction out generalizing layer i with
  | nil => rfl
  | cons line out ih => rw [writeFrom, ih]; rfl

theorem writeFrom_append (layer : Layer) (i : Nat) (out out' : List Line) :
    layer.writeFrom i (out ++ out') = (layer.writeFrom i out).writeFrom (i + out.length) out' := by
  induction out generalizing layer i with
  | nil => rfl
  | cons line out ih =>
    rw [List.cons_append, writeFrom, writeFrom, ih]
    congr 1
    simp only [List.length_cons]
    omega

theorem modify_length (before : List Line) (old : Line) (behind : List Line) (f : Line → Line) :
    (before ++ old :: behind).modify before.length f = before ++ f old :: behind := by
  induction before with
  | nil => rfl
  | cons line before ih => simpa using ih

theorem lines_writeFrom (layer : Layer) {before behind out : List Line}
    (h : layer.lines = before ++ behind) (hlen : out.length ≤ behind.length) :
    (layer.writeFrom before.length out).lines = before ++ out ++ behind.drop out.length := by
  induction out generalizing layer before behind with
  | nil => simpa [writeFrom] using h
  | cons line out ih =>
    cases behind with
    | nil => simp at hlen
    | cons old behind =>
      have hmod : (layer.modify before.length fun _ => line).lines =
          (before ++ [line]) ++ behind := by
        simp [modify, h, modify_length]
      have h' := ih (layer.modify before.length fun _ => line) hmod (by simpa using hlen)
      rw [List.length_append, List.length_singleton] at h'
      rw [writeFrom, h']
      simp

/-- A layer all of whose lines were stored. -/
theorem writeFrom_zero (layer : Layer) {out : List Line} (h : out.length = layer.lines.length) :
    layer.writeFrom 0 out = { layer with lines := out } := by
  have hl : (layer.writeFrom (List.length []) out).lines =
      [] ++ out ++ layer.lines.drop out.length := lines_writeFrom layer rfl (by omega)
  have hk := kind_writeFrom layer 0 out
  rw [List.length_nil, List.nil_append, h, List.drop_length, List.append_nil] at hl
  cases hw : layer.writeFrom 0 out
  rw [hw] at hl hk
  simp only at hl hk
  rw [hl, hk]

end Layer

namespace Stack

/-! ## Names -/

theorem contains_iff {stack : Stack} {name : Text} :
    stack.contains name = true ↔ name ∈ stack.names := by
  simp [contains, names]

theorem contains_eq_false_iff {stack : Stack} {name : Text} :
    stack.contains name = false ↔ name ∉ stack.names := by
  rw [← Bool.not_eq_true, contains_iff]

/-- A layer that is there has not a name that is free. -/
theorem ne_of_get? {stack : Stack} {name free : Text} {layer : Layer}
    (h : stack.contains free = false) (hg : stack.get? name = some layer) : name ≠ free := by
  rintro rfl
  rw [← isSome_get?, hg] at h
  cases h

theorem contains_congr {stack stack' : Stack} (h : stack.names = stack'.names) (name : Text) :
    stack.contains name = stack'.contains name := by
  rw [Bool.eq_iff_iff, contains_iff, contains_iff, h]

theorem position?_congr {stack stack' : Stack} (h : stack.names = stack'.names) (name : Text) :
    stack.position? name = stack'.position? name := by
  have key : ∀ stack : Stack, stack.position? name = stack.names.findIdx? (· = name) := by
    intro stack
    unfold position? names
    rw [List.findIdx?_map]
    rfl
  rw [key, key, h]

theorem ofNat_injective {n m : Nat} (h : Text.ofNat n = Text.ofNat m) : n = m := by
  have h' := congrArg (fun t : Text => Nat.ofDigitChars 10 t 0) h
  simpa [Text.ofNat] using h'

theorem fullName_injective {label : Text} {a b : Text}
    (h : fullName (some label) a = fullName (some label) b) : a = b := by
  simpa [fullName] using h

theorem freshName_of_free {stack : Stack} {label name : Text}
    (h : stack.contains (fullName (some label) name) = false) :
    stack.freshName label name = name := by
  simp only [freshName]
  rw [List.find?_cons_of_pos (by simpa using h)]
  rfl

/-- **A fresh name is free.** There are more candidates than layers. -/
theorem contains_freshName (stack : Stack) (label name : Text) :
    stack.contains (fullName (some label) (stack.freshName label name)) = false := by
  unfold freshName
  simp only
  generalize hc : name :: (List.range stack.size).map (fun n => name ++ '#' :: Text.ofNat (n + 2)) =
    candidates
  cases hf : candidates.find? fun c => !stack.contains (fullName (some label) c) with
  | some c => simpa using List.find?_some hf
  | none =>
    exfalso
    have hall : ∀ c ∈ candidates, fullName (some label) c ∈ stack.names := by
      intro c hm
      have := List.find?_eq_none.1 hf c hm
      exact contains_iff.1 (by simpa using this)
    have hnodup : (candidates.map (fullName (some label))).Nodup := by
      rw [← hc]
      refine List.Pairwise.map (R := (· ≠ ·)) (S := (· ≠ ·)) _
        (fun a b hab e => hab (fullName_injective e)) ?_
      refine List.nodup_cons.2 ⟨?_, ?_⟩
      · simp
      · refine List.Pairwise.map (R := (· ≠ ·)) (S := (· ≠ ·)) _
          (fun a b hab e => hab ?_) List.nodup_range
        have h := ofNat_injective (List.cons.inj (List.append_cancel_left e)).2
        omega
    have hsub : candidates.map (fullName (some label)) ⊆ stack.names := by
      intro x hx
      obtain ⟨c, hm, rfl⟩ := List.mem_map.1 hx
      exact hall c hm
    have hlen := List.Nodup.length_le_of_subset hnodup hsub
    rw [List.length_map, ← hc] at hlen
    simp only [names, size, List.length_cons, List.length_map, List.length_range] at hlen
    omega

/-! ## Layers on the stack -/

theorem modify_modify (stack : Stack) (name : Text) (f g : Layer → Layer) :
    (stack.modify name f).modify name g = stack.modify name (g ∘ f) := by
  simp only [modify, List.map_map]
  congr 1
  refine List.map_congr_left fun entry _ => ?_
  by_cases h : entry.1 = name <;> simp [h]

theorem modify_id (stack : Stack) (name : Text) : stack.modify name (fun l => l) = stack := by
  cases stack
  simp [modify]

/-- Stores lines of a layer one after the other. -/
def write (stack : Stack) (name : Text) (position : Nat) (out : List Line) : Stack :=
  stack.modify name fun layer => layer.writeFrom position out

@[simp] theorem names_write (stack : Stack) (name : Text) (i : Nat) (out : List Line) :
    (stack.write name i out).names = stack.names := names_modify ..

@[simp] theorem write_nil (stack : Stack) (name : Text) (i : Nat) :
    stack.write name i [] = stack := modify_id ..

theorem write_append (stack : Stack) (name : Text) (i : Nat) (out out' : List Line) :
    stack.write name i (out ++ out') = (stack.write name i out).write name (i + out.length) out' := by
  rw [write, write, write, modify_modify]
  congr 1
  funext layer
  exact Layer.writeFrom_append ..

theorem get?_write (stack : Stack) (name other : Text) (i : Nat) (out : List Line) :
    (stack.write name i out).get? other =
      if other = name then (stack.get? name).map fun l => l.writeFrom i out
      else stack.get? other := get?_modify ..

theorem insert_of_not_contains {stack : Stack} {name : Text} (h : stack.contains name = false)
    (layer : Layer) : stack.insert name layer = { layers := stack.layers ++ [(name, layer)] } := by
  simp [insert, h]

theorem not_contains {stack : Stack} {name : Text} (h : stack.contains name = false) :
    ∀ entry ∈ stack.layers, entry.1 ≠ name := by
  intro entry he e
  exact contains_eq_false_iff.1 h (List.mem_map.2 ⟨entry, he, e⟩)

theorem modify_of_not_contains {stack : Stack} {name : Text} (h : stack.contains name = false)
    (f : Layer → Layer) : stack.modify name f = stack := by
  cases stack with | mk layers =>
  simp only [modify, Stack.mk.injEq]
  refine (List.map_congr_left fun entry he => ?_).trans (List.map_id layers)
  simp [not_contains h entry he]

/-- **A layer that was free comes off** without a trace, whatever became of it. -/
theorem erase_insert {stack : Stack} {name : Text} (h : stack.contains name = false)
    (layer : Layer) (f : Layer → Layer) :
    ((stack.insert name layer).modify name f).erase name = stack := by
  have hmod := congrArg Stack.layers (modify_of_not_contains h f)
  rw [insert_of_not_contains h]
  cases stack with | mk layers =>
  simp only [modify] at hmod
  simp only [modify, List.map_append, List.map_cons, List.map_nil, erase, Stack.mk.injEq, hmod]
  rw [List.eraseP_append_right]
  · simp
  · intro entry he
    simpa using not_contains h entry he

/-! ## The other layers -/

/-- All layers but the one of that name, from front to back. -/
def others (stack : Stack) (name : Text) : List (Text × Layer) :=
  stack.layers.filter (·.1 ≠ name)

section Others

variable {stack stack' : Stack} {name other : Text} {layer : Layer}

/-- The layer of another name is one of the other layers. -/
theorem get?_eq_of_others (h : other ≠ name) (ho : stack.others name = stack'.others name) :
    stack.get? other = stack'.get? other := by
  have hfind : ∀ stack : Stack, stack.layers.find? (·.1 = other) =
      (stack.others name).find? (·.1 = other) := by
    intro stack
    rw [others, List.find?_filter]
    congr 1
    funext entry
    by_cases he : entry.1 = other <;> simp [he, h]
  rw [get?, get?, hfind stack, hfind stack', ho]

theorem others_modify (stack : Stack) (name : Text) (f : Layer → Layer) :
    (stack.modify name f).others name = stack.others name := by
  obtain ⟨layers⟩ := stack
  simp only [modify, others]
  induction layers with
  | nil => rfl
  | cons entry rest ih => by_cases hn : entry.1 = name <;> simpa [hn] using ih

theorem others_erase (stack : Stack) (name : Text) :
    (stack.erase name).others name = stack.others name := by
  obtain ⟨layers⟩ := stack
  simp only [erase, others]
  induction layers with
  | nil => rfl
  | cons entry rest ih =>
    by_cases hn : entry.1 = name
    · simp [hn]
    · simpa [hn] using ih

theorem others_insert (stack : Stack) (name : Text) (layer : Layer) :
    (stack.insert name layer).others name = stack.others name := by
  unfold insert
  split
  · exact others_modify ..
  · simp [others]

theorem others_insertFront (stack : Stack) (name : Text) (layer : Layer) :
    (stack.insertFront name layer).others name = stack.others name := by
  rw [← others_erase stack]
  simp [others, insertFront]

theorem others_clean (stack : Stack) (name : Text) :
    (stack.clean name).others name = stack.others name := by
  unfold clean
  split
  · rfl
  · split
    · exact others_modify ..
    · exact others_erase ..

theorem get?_erase_of_ne (h : other ≠ name) (stack : Stack) :
    (stack.erase name).get? other = stack.get? other :=
  get?_eq_of_others h (others_erase ..)

theorem get?_insertFront_of_ne (h : other ≠ name) (layer : Layer) :
    (stack.insertFront name layer).get? other = stack.get? other :=
  get?_eq_of_others h (others_insertFront ..)

theorem get?_clean_of_ne (h : other ≠ name) (stack : Stack) :
    (stack.clean name).get? other = stack.get? other :=
  get?_eq_of_others h (others_clean ..)

end Others

/-! ## Names that are told apart -/

section Distinct

variable {stack : Stack} {name : Text} {layer : Layer}

theorem mem_names_of_get? (h : stack.get? name = some layer) : name ∈ stack.names := by
  rw [← contains_iff, ← isSome_get?, h]
  rfl

theorem get?_eq_none_iff : stack.get? name = none ↔ stack.contains name = false := by
  rw [← isSome_get?]
  cases stack.get? name <;> simp

theorem names_erase (stack : Stack) (name : Text) :
    (stack.erase name).names = stack.names.erase name := by
  have hname : (fun entry : Text × Layer => decide (entry.1 = name)) = (· == name) ∘ Prod.fst := by
    funext entry
    rw [Bool.eq_iff_iff]
    simp
  rw [List.erase_eq_eraseP', names, names, List.eraseP_map, ← hname]
  rfl

theorem names_erase_sublist (stack : Stack) (name : Text) :
    (stack.erase name).names.Sublist stack.names := by
  rw [names_erase]
  exact List.erase_sublist

theorem names_insert_of_mem (h : name ∈ stack.names) (layer : Layer) :
    (stack.insert name layer).names = stack.names := by
  rw [insert, if_pos (contains_iff.2 h), names_modify]

theorem nodup_names_insert (h : stack.names.Nodup) (name : Text) (layer : Layer) :
    (stack.insert name layer).names.Nodup := by
  by_cases hm : name ∈ stack.names
  · rwa [names_insert_of_mem hm]
  · rw [insert_of_not_contains (contains_eq_false_iff.2 hm), names, List.map_append]
    refine List.nodup_append.2 ⟨h, by simp, ?_⟩
    rintro x hx y hy rfl
    obtain rfl : x = name := List.mem_singleton.1 hy
    exact hm hx

theorem nodup_names_erase (h : stack.names.Nodup) (name : Text) :
    (stack.erase name).names.Nodup := h.sublist (names_erase_sublist ..)

theorem nodup_names_insertFront (h : stack.names.Nodup) (name : Text) (layer : Layer) :
    (stack.insertFront name layer).names.Nodup := by
  refine List.nodup_cons.2 ⟨?_, nodup_names_erase h name⟩
  rw [← names, names_erase]
  exact h.not_mem_erase

/-- No other layer has the name. -/
theorem not_contains_erase (h : stack.names.Nodup) (name : Text) :
    (stack.erase name).contains name = false := by
  rw [contains_eq_false_iff, names_erase]
  exact h.not_mem_erase

theorem get?_erase_self (h : stack.names.Nodup) (name : Text) :
    (stack.erase name).get? name = none :=
  get?_eq_none_iff.2 (not_contains_erase h name)

theorem layers_erase (h : stack.names.Nodup) (name : Text) :
    (stack.erase name).layers = stack.others name := by
  rw [← others_erase, others, List.filter_eq_self.2]
  intro entry he
  simpa using not_contains (not_contains_erase h name) entry he

/-- A layer on a stack without repeated names is the one of its name. -/
theorem get?_of_mem (h : stack.names.Nodup) (hm : (name, layer) ∈ stack.layers) :
    stack.get? name = some layer :=
  Listing.get?_of_mem h hm

/-- **The page by names**: the texts of the layers that the names lead to. -/
theorem join_eq_flatMap (h : stack.names.Nodup) :
    stack.join = stack.names.flatMap fun name => ((stack.get? name).map Layer.render).getD [] := by
  rw [join, names, List.flatMap_map, List.flatMap_def, List.flatMap_def]
  congr 1
  refine List.map_congr_left fun entry hm => ?_
  rw [get?_of_mem h hm]
  rfl

end Distinct

/-! ## One layer changed, and another one -/

section Commuting

variable {name other : Text}

theorem modify_comm (h : other ≠ name) (stack : Stack) (f g : Layer → Layer) :
    (stack.modify name f).modify other g = (stack.modify other g).modify name f := by
  simp only [modify, List.map_map]
  congr 1
  refine List.map_congr_left fun entry _ => ?_
  by_cases hn : entry.1 = name
  · simp [hn, h.symm]
  · by_cases ho : entry.1 = other <;> simp [hn, ho, h]

theorem contains_modify (stack : Stack) (f : Layer → Layer) :
    (stack.modify name f).contains other = stack.contains other :=
  contains_congr (names_modify ..) other

theorem freshName_modify (stack : Stack) (f : Layer → Layer) (label x : Text) :
    (stack.modify name f).freshName label x = stack.freshName label x := by
  have hsize : (stack.modify name f).size = stack.size := by simp [size, modify]
  simp only [freshName, hsize, contains_modify]

theorem insert_modify (h : other ≠ name) (stack : Stack) (f : Layer → Layer) (layer : Layer) :
    (stack.modify name f).insert other layer = (stack.insert other layer).modify name f := by
  unfold insert
  rw [contains_modify]
  split
  · exact modify_comm h ..
  · simp [modify, h]

theorem erase_modify (stack : Stack) (f : Layer → Layer) :
    (stack.modify name f).erase other = (stack.erase other).modify name f := by
  simp only [modify, erase, List.eraseP_map, Stack.mk.injEq]
  congr 2
  funext entry
  by_cases hn : entry.1 = name <;> simp [hn]

theorem insertFront_modify (h : other ≠ name) (stack : Stack) (f : Layer → Layer) (layer : Layer) :
    (stack.modify name f).insertFront other layer = (stack.insertFront other layer).modify name f := by
  unfold insertFront
  rw [erase_modify]
  simp [modify, h]

end Commuting

end Stack

end Stencil
