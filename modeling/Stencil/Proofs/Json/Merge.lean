import Stencil.Json.Merge
import Stencil.Proofs.Json.Ordered

/-!
# Looking into a merge

A key of two merged objects leads to what it leads to in one of them, or to the merge of what it
leads to in both (`get?_mergeEntries`). Merged with a value that is no object, or with an object
without entries, a value stays as it is.

Paths are followed key by key. What the second value leads to is merged into what the first one
leads to (`at?_merge_of_some`), and where the second one has an object without the next key, the
first one decides (`at?_merge_of_object`). So the second value is what counts wherever it says
anything, and laying it over a second time changes nothing (`merge_right_biased`).
-/

namespace Stencil.Json

/-- The value is an object. -/
def IsObject (j : Json) : Prop := ∃ entries, j = obj entries

theorem merge_of_not_isObject_left {base : Json} (h : ¬ base.IsObject) (j : Json) :
    merge base j = j := by
  cases j with
  | obj overrides =>
    cases base with
    | obj entries => exact absurd ⟨entries, rfl⟩ h
    | _ => rfl
  | _ => cases base <;> rfl

theorem merge_of_not_isObject_right {j : Json} (h : ¬ j.IsObject) (base : Json) :
    merge base j = j := by
  cases j with
  | obj overrides => exact absurd ⟨overrides, rfl⟩ h
  | _ => cases base <;> rfl

@[simp] theorem merge_obj (entries overrides : List (Text × Json)) :
    merge (obj entries) (obj overrides) = obj (mergeEntries entries overrides) := by
  rw [merge]

/-- **A key of merged objects.** The keys of the second one are there only once, so that each of its
values is merged with what stood there at first. -/
theorem get?_mergeEntries {overrides : List (Text × Json)} (hs : Entries.IsSorted overrides)
    (base : List (Text × Json)) (key : Text) :
    Entries.get? key (mergeEntries base overrides) =
      match Entries.get? key overrides with
      | some j => some (match Entries.get? key base with
        | some old => merge old j
        | none => j)
      | none => Entries.get? key base := by
  induction overrides generalizing base with
  | nil => rw [mergeEntries]; rfl
  | cons entry rest ih =>
    obtain ⟨k, j⟩ := entry
    obtain ⟨hhead, hrest⟩ := List.pairwise_cons.1 hs
    rw [mergeEntries, ih hrest]
    by_cases hk : k = key
    · subst hk
      rw [Entries.get?_of_forall_before hhead, Entries.get?, if_pos rfl]
      exact Entries.get?_insert_self ..
    · simp only [Entries.get?, if_neg hk, Entries.get?_insert_of_ne (Ne.symm hk)]

theorem isSorted_mergeEntries {base : List (Text × Json)} (h : Entries.IsSorted base)
    (overrides : List (Text × Json)) : Entries.IsSorted (mergeEntries base overrides) := by
  induction overrides generalizing base with
  | nil => rwa [mergeEntries]
  | cons entry rest ih =>
    rw [mergeEntries]
    exact ih (Entries.isSorted_insert h ..)

/-- A property that merging keeps is had by all that is stored. -/
theorem forall_mem_mergeEntries {motive : Json → Prop} {base overrides : List (Text × Json)}
    (hbase : ∀ entry ∈ base, motive entry.2)
    (h : ∀ entry ∈ overrides, motive entry.2 ∧ ∀ old, motive old → motive (merge old entry.2)) :
    ∀ entry ∈ mergeEntries base overrides, motive entry.2 := by
  induction overrides generalizing base with
  | nil => rwa [mergeEntries]
  | cons entry rest ih =>
    obtain ⟨k, j⟩ := entry
    obtain ⟨⟨hj, hmerge⟩, hrest⟩ := List.forall_mem_cons.1 h
    rw [mergeEntries]
    refine ih (fun stored hs => ?_) hrest
    rcases Entries.mem_insert hs with rfl | hs
    · dsimp only
      split
      · next old hold => exact hmerge old (hbase _ (Entries.mem_of_get? hold))
      · exact hj
    · exact hbase stored hs

/-- **Nothing is added by an object without entries.** -/
theorem merge_empty {j : Json} (h : j.IsOrdered) : merge (obj []) j = j := by
  cases h with
  | obj hs _ =>
    rw [merge_obj]
    congr 1
    refine Entries.eq_of_get?_eq (isSorted_mergeEntries .nil _) hs fun key => ?_
    rw [get?_mergeEntries hs]
    cases Entries.get? key _ <;> rfl
  | _ => rfl

/-- **A merge has its objects in order.** -/
theorem IsOrdered.merge {a b : Json} (ha : a.IsOrdered) (hb : b.IsOrdered) :
    (Json.merge a b).IsOrdered := by
  induction hb generalizing a with
  | obj hs hoverrides ih =>
    cases ha with
    | obj hbase hentries =>
      rw [merge_obj]
      exact .obj (isSorted_mergeEntries hbase _) (forall_mem_mergeEntries hentries fun entry he =>
        ⟨hoverrides entry he, fun _ hold => ih entry he hold⟩)
    | _ => exact .obj hs hoverrides
  | arr h => cases ha <;> exact .arr h
  | _ => cases ha <;> constructor

/-! ## Laid over twice -/

/-- **Merged with itself** a value stays as it is. -/
theorem merge_self {j : Json} (h : j.IsOrdered) : merge j j = j := by
  induction h with
  | @obj entries hs _ ih =>
    rw [merge_obj]
    congr 1
    refine Entries.eq_of_get?_eq (isSorted_mergeEntries hs entries) hs fun key => ?_
    rw [get?_mergeEntries hs]
    cases hget : Entries.get? key entries with
    | none => rfl
    | some value => exact congrArg some (ih _ (Entries.mem_of_get? hget))
  | _ => rfl

/-- **Laid over a second time** a value changes nothing. -/
theorem merge_merge_self {a b : Json} (ha : a.IsOrdered) (hb : b.IsOrdered) :
    merge (merge a b) b = merge a b := by
  induction hb generalizing a with
  | @obj overrides hs hoverrides ih =>
    cases ha with
    | @obj entries hbase hentries =>
      rw [merge_obj, merge_obj]
      congr 1
      have hmerged := isSorted_mergeEntries hbase overrides
      refine Entries.eq_of_get?_eq (isSorted_mergeEntries hmerged overrides) hmerged fun key => ?_
      rw [get?_mergeEntries hs, get?_mergeEntries hs]
      cases hover : Entries.get? key overrides with
      | none => rfl
      | some value =>
        have hmem := Entries.mem_of_get? hover
        cases hget : Entries.get? key entries with
        | none => exact congrArg some (merge_self (hoverrides _ hmem))
        | some old => exact congrArg some (ih _ hmem (hentries _ (Entries.mem_of_get? hget)))
    | _ => exact merge_self (.obj hs hoverrides)
  | _ => cases ha <;> rfl

/-! ## Paths -/

theorem at?_append (stop rest : List Text) (j : Json) :
    at? (stop ++ rest) j = (at? stop j).bind (at? rest) := by
  induction stop generalizing j with
  | nil => rfl
  | cons key stop ih =>
    rw [List.cons_append, at?, at?]
    cases j.field? key with
    | none => rfl
    | some value => exact ih value

/-- **A key of a merge with an object**, which may be laid over any value. -/
theorem field?_merge (a : Json) {overrides : List (Text × Json)} (hs : Entries.IsSorted overrides)
    (key : Text) :
    (merge a (obj overrides)).field? key =
      match Entries.get? key overrides with
      | some j => some (match a.field? key with
        | some old => merge old j
        | none => j)
      | none => a.field? key := by
  cases a with
  | obj entries =>
    rw [merge_obj]
    exact get?_mergeEntries hs entries key
  | _ =>
    rw [merge_of_not_isObject_left (fun ⟨_, e⟩ => by cases e)]
    simp only [field?]
    cases Entries.get? key overrides <;> rfl

/-- **Where the second value leads somewhere**, that is merged into what the first one leads to. -/
theorem at?_merge_of_some {a b j : Json} (hb : b.IsOrdered) {path : List Text}
    (h : b.at? path = some j) :
    (merge a b).at? path = some (match a.at? path with
      | some old => merge old j
      | none => j) := by
  induction path generalizing a b with
  | nil =>
    obtain rfl := Option.some.inj h
    rfl
  | cons key path ih =>
    cases hb with
    | @obj overrides hs hoverrides =>
      rw [at?, field?] at h
      split at h
      · next value hvalue =>
        have hv : value.IsOrdered := hoverrides _ (Entries.mem_of_get? hvalue)
        rw [at?, field?_merge a hs, hvalue, at?]
        cases a.field? key with
        | none => exact h
        | some old => exact ih hv h
      · cases h
    | _ => cases h

/-- **Where the second value has an object without the next key**, the first one decides. -/
theorem at?_merge_of_object {a b : Json} (hb : b.IsOrdered) {stop rest : List Text} {key : Text}
    {overrides : List (Text × Json)} (h : b.at? stop = some (obj overrides))
    (hkey : Entries.get? key overrides = none) :
    (merge a b).at? (stop ++ key :: rest) = a.at? (stop ++ key :: rest) := by
  have hs : Entries.IsSorted overrides := by
    cases hb.at? h with
    | obj hs _ => exact hs
  rw [at?_append, at?_append, at?_merge_of_some hb h]
  cases a.at? stop with
  | none => simp [at?, field?, hkey]
  | some old => simp [at?, field?_merge old hs, hkey]

/-- **Where a path stops**: the longest beginning of it that the value resolves leads to `last`. -/
structure StopsAt (j : Json) (path stop : List Text) (last : Json) : Prop where
  isPrefix : stop <+: path
  leads : j.at? stop = some last
  longest : ∀ longer, longer <+: path → stop.length < longer.length → j.at? longer = none

/-- A path that is not resolved has a first key that leads nowhere. -/
theorem exists_key_of_at?_eq_none {j : Json} {path : List Text} (h : j.at? path = none) :
    ∃ stop last key rest, path = stop ++ key :: rest ∧ j.at? stop = some last ∧
      last.field? key = none := by
  induction path generalizing j with
  | nil => cases h
  | cons key path ih =>
    rw [at?] at h
    split at h
    · next value hvalue =>
      obtain ⟨stop, last, next, rest, rfl, hstop, hnext⟩ := ih h
      refine ⟨key :: stop, last, next, rest, rfl, ?_, hnext⟩
      rw [at?, hvalue]
      exact hstop
    · next hkey => exact ⟨[], j, key, path, rfl, rfl, hkey⟩

namespace StopsAt

variable {j last : Json} {path stop rest : List Text} {key : Text}

theorem of_at? (h : j.at? path = some last) : j.StopsAt path path last :=
  ⟨List.prefix_rfl, h, fun _ hp hlt => absurd hp.length_le (Nat.not_le_of_lt hlt)⟩

theorem of_field? (h : j.at? stop = some last) (hkey : last.field? key = none) :
    j.StopsAt (stop ++ key :: rest) stop last := by
  refine ⟨List.prefix_append .., h, fun longer hp hlt => ?_⟩
  -- a longer beginning of the path goes on with the key
  have hnext : stop ++ [key] <+: stop ++ key :: rest := ⟨rest, by simp⟩
  have hle : (stop ++ [key]).length ≤ longer.length := by
    rw [List.length_append]
    exact hlt
  obtain ⟨tail, rfl⟩ := List.prefix_of_prefix_length_le hnext hp hle
  rw [at?_append, at?_append, h, Option.bind_some, at?, hkey]
  rfl

/-- A path that is not resolved goes on behind where it stops, with a key that leads nowhere. -/
theorem exists_key (h : j.StopsAt path stop last) (hnone : j.at? path = none) :
    ∃ key rest, path = stop ++ key :: rest ∧ last.field? key = none := by
  obtain ⟨tail, rfl⟩ := h.isPrefix
  cases tail with
  | nil =>
    rw [List.append_nil, h.leads] at hnone
    cases hnone
  | cons key rest =>
    refine ⟨key, rest, rfl, ?_⟩
    have hlonger := h.longest (stop ++ [key]) (by simp) (by simp)
    rw [at?_append, h.leads, Option.bind_some, at?] at hlonger
    split at hlonger
    · cases hlonger
    · assumption

end StopsAt

theorem exists_stopsAt (j : Json) (path : List Text) : ∃ stop last, j.StopsAt path stop last := by
  cases hp : j.at? path with
  | some last => exact ⟨path, last, .of_at? hp⟩
  | none =>
    obtain ⟨stop, last, key, rest, rfl, hstop, hkey⟩ := exists_key_of_at?_eq_none hp
    exact ⟨stop, last, .of_field? hstop hkey⟩

/-- **The second value counts.** Where it resolves a path to a value that is no object, the merge
does too. Where it stops at an object before the end of the path, the merge resolves the path as the
first value does, and where it stops at any other value, not at all. Every path stops somewhere. A
value merged with itself or with an empty object stays as it is, and a value that is laid over a
second time changes nothing. -/
theorem merge_right_biased {a b : Json} (ha : a.IsOrdered) (hb : b.IsOrdered) :
    (merge a b).IsOrdered ∧
    (∀ path j, b.at? path = some j → ¬ j.IsObject → (merge a b).at? path = some j) ∧
    (∀ path, ∃ stop last, b.StopsAt path stop last) ∧
    (∀ path stop last, b.at? path = none → b.StopsAt path stop last →
      (last.IsObject → (merge a b).at? path = a.at? path) ∧
      (¬ last.IsObject → (merge a b).at? path = none)) ∧
    merge a a = a ∧ (a.IsObject → merge a (obj []) = a) ∧ merge (merge a b) b = merge a b := by
  have hplain : ∀ path j, b.at? path = some j → ¬ j.IsObject →
      (merge a b).at? path = some j := by
    intro path j h hj
    rw [at?_merge_of_some hb h]
    cases a.at? path with
    | none => rfl
    | some old => exact congrArg some (merge_of_not_isObject_right hj old)
  refine ⟨ha.merge hb, hplain, exists_stopsAt b, fun path stop last hnone hstop => ?_, merge_self ha,
    ?_, merge_merge_self ha hb⟩
  · obtain ⟨key, rest, rfl, hkey⟩ := hstop.exists_key hnone
    constructor
    · rintro ⟨overrides, rfl⟩
      exact at?_merge_of_object hb hstop.leads hkey
    · intro hlast
      rw [at?_append, hplain stop last hstop.leads hlast, Option.bind_some, at?, hkey]
  · rintro ⟨entries, rfl⟩
    rw [merge_obj, mergeEntries]

/-- Settings to fall back on. -/
def fallback : Json :=
  obj (Entries.ofList
    [("dirs".toList, obj (Entries.ofList [("static".toList, str "assets".toList)])),
      ("log".toList, obj (Entries.ofList
        [("level".toList, str "info".toList), ("size".toList, int 5)]))])

/-- Settings that were chosen. -/
def chosen : Json :=
  obj (Entries.ofList
    [("log".toList, obj (Entries.ofList [("level".toList, str "debug".toList)])),
      ("dirs".toList, null)])

/-- What was chosen replaces a text by another one and an object by null; what was not chosen
stays, at any depth. -/
theorem merge_right_biased_settings :
    fallback.IsOrdered ∧ chosen.IsOrdered ∧
    (merge fallback chosen).at? ["log".toList, "level".toList] = some (str "debug".toList) ∧
    chosen.at? ["log".toList, "size".toList] = none ∧
    (merge fallback chosen).at? ["log".toList, "size".toList] = some (int 5) ∧
    chosen.at? ["dirs".toList, "static".toList] = none ∧
    fallback.at? ["dirs".toList, "static".toList] = some (str "assets".toList) ∧
    (merge fallback chosen).at? ["dirs".toList, "static".toList] = none ∧
    merge fallback (obj []) = fallback ∧
    merge (merge fallback chosen) chosen = merge fallback chosen := by
  have ha : fallback.IsOrdered := by
    exact .ofList (by simp [IsOrdered.str, IsOrdered.int, IsOrdered.ofList])
  have hb : chosen.IsOrdered := by
    exact .ofList (by simp [IsOrdered.str, IsOrdered.null, IsOrdered.ofList])
  obtain ⟨-, hplain, -, hstops, -, hempty, htwice⟩ := merge_right_biased ha hb
  have hlog : chosen.StopsAt (["log".toList] ++ ["size".toList]) ["log".toList]
      (obj [("level".toList, str "debug".toList)]) := .of_field? rfl rfl
  have hdirs : chosen.StopsAt (["dirs".toList] ++ ["static".toList]) ["dirs".toList] null :=
    .of_field? rfl rfl
  refine ⟨ha, hb, hplain _ _ rfl (by rintro ⟨_, h⟩; cases h), rfl,
    (hstops _ _ _ rfl hlog).1 ⟨_, rfl⟩, rfl, rfl,
    (hstops _ _ _ rfl hdirs).2 (by rintro ⟨_, h⟩; cases h), hempty ⟨_, rfl⟩, htwice⟩

end Stencil.Json
