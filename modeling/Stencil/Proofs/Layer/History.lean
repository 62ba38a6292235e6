import Stencil.Proofs.Layer.Cleaning
import Stencil.Proofs.Layer.Stack

/-!
# The history of a stack of layers

A stack comes of layers that were created, removed and cleaned one after the other
(`Stack.ofHistory`). It is a map whose names stand in an order. A name leads to the layer that was
created last under it and not removed since, clean if it was cleaned since
(`get?_ofHistory_eq_some_iff`). What is done to one layer leaves the others as they are and in their
order (`others_apply`), so that the page is always made of the layers that the names lead to, in the
order of the names (`order_and_contents`).
-/

namespace Stencil

namespace Layer

/-- What cleaning leaves of a layer, if it shows anything. -/
def cleaned? (layer : Layer) : Option Layer :=
  if layer.isVisible then some layer.clean else none

theorem cleaned?_eq_some_iff {layer cleaned : Layer} :
    layer.cleaned? = some cleaned ↔
      Text.isBlank layer.render = false ∧ cleaned = layer.clean := by
  unfold cleaned?
  rw [isVisible_eq]
  cases Text.isBlank layer.render <;> simp [eq_comm]

/-- Cleaned once or more often, a layer is the same. -/
theorem cleaned?_bind_cleaned? (layer : Layer) : layer.cleaned?.bind cleaned? = layer.cleaned? := by
  unfold cleaned?
  cases hv : layer.isVisible with
  | true => simp [isVisible_clean, hv, clean_clean]
  | false => rfl

end Layer

namespace Stack

/-! ## Changes -/

/-- What is done to one layer of a stack. -/
inductive Change where
  /-- A layer is created under a name with a label, if there is one. It is put in the place of the
  layer that has the full name or at the back, unless the front is asked for. -/
  | create (name : Text) (layer : Layer) (label? : Option Text) (atFront : Bool)
  /-- The layer of a full name is removed. -/
  | remove (name : Text)
  /-- The layer of a full name is cleaned. -/
  | clean (name : Text)
deriving DecidableEq

/-- Changes from the first to the last. -/
abbrev History := List Change

namespace Change

/-- The full name of the layer that is changed. -/
def target : Change → Text
  | create name _ label? _ => fullName label? name
  | remove name => name
  | clean name => name

/-- The layer that is created under the full name. -/
def created? (name : Text) : Change → Option Layer
  | create given layer label? _ => if fullName label? given = name then some layer else none
  | remove _ => none
  | clean _ => none

/-- The change creates or removes the layer of the full name. -/
def Replaces (name : Text) (change : Change) : Prop :=
  (∃ layer, change.created? name = some layer) ∨ change = remove name

end Change

/-- The stack after a change. -/
def apply (stack : Stack) : Change → Stack
  | .create name layer label? atFront =>
    if atFront then stack.insertFront (fullName label? name) layer
    else stack.insert (fullName label? name) layer
  | .remove name => stack.erase name
  | .clean name => stack.clean name

/-- The stack after the changes of a history. -/
def after (stack : Stack) (history : History) : Stack := history.foldl apply stack

/-- The stack that begins empty and has the history. -/
def ofHistory (history : History) : Stack := after {} history

/-- **The layer was created last** under the full name, and the layer of that name was not removed in
the later part of the history. -/
def LastCreated (history : History) (name : Text) (layer : Layer) (later : History) : Prop :=
  ∃ earlier change, history = earlier ++ change :: later ∧ change.created? name = some layer ∧
    ∀ change ∈ later, ¬ change.Replaces name

variable {stack : Stack} {name : Text} {layer created : Layer} {change : Change}
  {history later : History}

/-! ## What one change does -/

/-- **The other layers** stay as they are and in their order. -/
theorem others_apply (stack : Stack) (change : Change) :
    (stack.apply change).others change.target = stack.others change.target := by
  cases change with
  | create name layer label? atFront =>
    cases atFront with
    | true => exact others_insertFront ..
    | false => exact others_insert ..
  | remove name => exact others_erase ..
  | clean name => exact others_clean ..

theorem get?_apply_of_ne (h : name ≠ change.target) :
    (stack.apply change).get? name = stack.get? name :=
  get?_eq_of_others h (others_apply ..)

theorem get?_apply_of_created (h : change.created? name = some layer) :
    (stack.apply change).get? name = some layer := by
  cases change with
  | create given created label? atFront =>
    rw [Change.created?] at h
    split at h
    · next hname =>
      obtain rfl := Option.some.inj h
      subst hname
      cases atFront with
      | true => exact get?_insertFront_self ..
      | false => exact get?_insert_self ..
    · cases h
  | _ => cases h

/-- Cleaning leaves the layer in its place, or takes it off if it shows nothing. -/
theorem clean_cases (stack : Stack) (name : Text) :
    stack.get? name = none ∧ stack.clean name = stack ∨
    ∃ layer, stack.get? name = some layer ∧
      (layer.isVisible = true ∧ stack.clean name = stack.modify name Layer.clean ∨
        layer.isVisible = false ∧ stack.clean name = stack.erase name) := by
  unfold clean
  cases stack.get? name with
  | none => exact .inl ⟨rfl, rfl⟩
  | some layer =>
    refine .inr ⟨layer, rfl, ?_⟩
    simp only [Layer.isVisible_clean]
    cases layer.isVisible with
    | true => exact .inl ⟨rfl, rfl⟩
    | false => exact .inr ⟨rfl, rfl⟩

theorem get?_clean_self (h : stack.names.Nodup) (name : Text) :
    (stack.clean name).get? name = (stack.get? name).bind Layer.cleaned? := by
  rcases clean_cases stack name with ⟨hg, hc⟩ | ⟨layer, hg, ⟨hv, hc⟩ | ⟨hv, hc⟩⟩
  · rw [hc, hg]
    rfl
  · rw [hc, get?_modify, if_pos rfl, hg, Option.bind_some, Layer.cleaned?, if_pos hv]
    rfl
  · rw [hc, get?_erase_self h, hg, Option.bind_some, Layer.cleaned?, if_neg (by simp [hv])]

theorem nodup_names_apply (h : stack.names.Nodup) (change : Change) :
    (stack.apply change).names.Nodup := by
  cases change with
  | create name layer label? atFront =>
    cases atFront with
    | true => exact nodup_names_insertFront h ..
    | false => exact nodup_names_insert h ..
  | remove name => exact nodup_names_erase h name
  | clean name =>
    rcases clean_cases stack name with ⟨-, hc⟩ | ⟨layer, -, ⟨-, hc⟩ | ⟨-, hc⟩⟩
    · rwa [apply, hc]
    · rwa [apply, hc, names_modify]
    · rw [apply, hc]
      exact nodup_names_erase h name

/-- Cleaning changes no text, so that the page only loses a layer that shows nothing. -/
theorem exists_isBlank_of_join_clean_ne (h : (stack.clean name).join ≠ stack.join) :
    ∃ layer, stack.get? name = some layer ∧ Text.isBlank layer.render = true := by
  rcases clean_cases stack name with ⟨-, hc⟩ | ⟨layer, hg, ⟨-, hc⟩ | ⟨hv, -⟩⟩
  · exact absurd (congrArg join hc) h
  · refine absurd ?_ h
    rw [hc, join, join, modify, List.flatMap_map]
    congr 1
    funext entry
    by_cases hn : entry.1 = name <;> simp [hn, Layer.render_clean]
  · exact ⟨layer, hg, by simpa [Layer.isVisible_eq] using hv⟩

/-! ## What a history leads to -/

theorem nodup_names_after (h : stack.names.Nodup) (history : History) :
    (stack.after history).names.Nodup := by
  induction history generalizing stack with
  | nil => exact h
  | cons change history ih => exact ih (nodup_names_apply h change)

theorem nodup_names_ofHistory (history : History) : (ofHistory history).names.Nodup :=
  @nodup_names_after {} List.nodup_nil history

theorem Change.eq_clean_or_ne (h : ¬ change.Replaces name) :
    change = clean name ∨ name ≠ change.target := by
  by_cases hname : name = change.target
  · subst hname
    cases change with
    | create given layer label? atFront => exact absurd (.inl ⟨layer, if_pos rfl⟩) h
    | remove given => exact absurd (.inr rfl) h
    | clean given => exact .inl rfl
  · exact .inr hname

/-- **As long as a layer is not replaced** it stays what it is, or what cleaning leaves of it. -/
theorem get?_after (h : stack.names.Nodup) (hlater : ∀ change ∈ later, ¬ change.Replaces name) :
    (stack.after later).get? name =
      if .clean name ∈ later then (stack.get? name).bind Layer.cleaned? else stack.get? name := by
  induction later generalizing stack with
  | nil => simp [after]
  | cons change later ih =>
    obtain ⟨hfirst, hrest⟩ := List.forall_mem_cons.1 hlater
    have hstep : (stack.after (change :: later)).get? name = _ := ih (nodup_names_apply h change) hrest
    rw [hstep]
    rcases Change.eq_clean_or_ne hfirst with rfl | hne
    · rw [apply, get?_clean_self h, if_pos List.mem_cons_self]
      -- cleaning it more than once makes no difference
      split
      · rw [Option.bind_assoc]
        simp only [Layer.cleaned?_bind_cleaned?]
      · rfl
    · have hclean : Change.clean name ≠ change := by
        rintro rfl
        exact hne rfl
      rw [get?_apply_of_ne hne]
      simp only [List.mem_cons, hclean, false_or]

/-- A name was never used, or there is a last time at which its layer was created or removed. -/
theorem exists_last (history : History) (name : Text) :
    (∀ change ∈ history, ¬ change.Replaces name) ∨
    ∃ earlier change later, history = earlier ++ change :: later ∧ change.Replaces name ∧
      ∀ change ∈ later, ¬ change.Replaces name := by
  induction history with
  | nil => exact .inl (by simp)
  | cons first history ih =>
    rcases ih with hnone | ⟨earlier, change, later, rfl, hlast⟩
    · by_cases hfirst : first.Replaces name
      · exact .inr ⟨[], first, history, rfl, hfirst, hnone⟩
      · exact .inl (List.forall_mem_cons.2 ⟨hfirst, hnone⟩)
    · exact .inr ⟨first :: earlier, change, later, rfl, hlast⟩

theorem get?_ofHistory_append (earlier : History) (change : Change)
    (hlater : ∀ change ∈ later, ¬ change.Replaces name) :
    (ofHistory (earlier ++ change :: later)).get? name =
      if .clean name ∈ later then (((ofHistory earlier).apply change).get? name).bind Layer.cleaned?
      else ((ofHistory earlier).apply change).get? name := by
  rw [← get?_after (nodup_names_apply (nodup_names_ofHistory earlier) change) hlater]
  simp only [ofHistory, after, List.foldl_append, List.foldl_cons]

theorem LastCreated.get?_eq (h : LastCreated history name created later) :
    (ofHistory history).get? name =
      if .clean name ∈ later then created.cleaned? else some created := by
  obtain ⟨earlier, change, rfl, hcreated, hlater⟩ := h
  rw [get?_ofHistory_append earlier change hlater, get?_apply_of_created hcreated, Option.bind_some]

/-- **The layer of a name** is the one that was created last under it, if it was not removed since;
if it was cleaned since, it is clean, and it shows something. -/
theorem get?_ofHistory_eq_some_iff (history : History) (name : Text) (layer : Layer) :
    (ofHistory history).get? name = some layer ↔
      ∃ created later, LastCreated history name created later ∧
        if .clean name ∈ later then Text.isBlank created.render = false ∧ layer = created.clean
        else layer = created := by
  have hleft : ∀ (created : Layer) (later : History),
      ((if .clean name ∈ later then created.cleaned? else some created) = some layer ↔
        if .clean name ∈ later then Text.isBlank created.render = false ∧ layer = created.clean
        else layer = created) := by
    intro created later
    split
    · exact Layer.cleaned?_eq_some_iff
    · rw [Option.some_inj, eq_comm]
  constructor
  · intro hget
    rcases exists_last history name with hnone | ⟨earlier, change, later, rfl, hlast, hlater⟩
    · -- nothing was stored under the name
      have hempty : get? {} name = none := rfl
      rw [ofHistory, @get?_after {} name history List.nodup_nil hnone, hempty] at hget
      simp at hget
    rcases hlast with ⟨created, hcreated⟩ | rfl
    · have hcreation : LastCreated (earlier ++ change :: later) name created later :=
        ⟨earlier, change, rfl, hcreated, hlater⟩
      rw [hcreation.get?_eq] at hget
      exact ⟨created, later, hcreation, (hleft created later).1 hget⟩
    · -- what was stored was removed
      rw [get?_ofHistory_append earlier _ hlater, apply,
        get?_erase_self (nodup_names_ofHistory earlier)] at hget
      simp at hget
  · rintro ⟨created, later, hcreation, hlayer⟩
    rw [hcreation.get?_eq]
    exact (hleft created later).2 hlayer

/-- A layer is created again in its place, and another one again at the front. -/
example :
    let layer (t : String) : Layer := { kind := .main, lines := [{ text := t.toList }] }
    (ofHistory [.create ['a'] (layer "one") none false, .create ['b'] (layer "two") none false,
      .create ['a'] (layer "three") none false, .create ['b'] (layer "four") none true]).join =
        "fourthree".toList := by
  decide

end Stack

end Stencil
