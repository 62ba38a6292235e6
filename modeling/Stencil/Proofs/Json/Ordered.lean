import Stencil.Json.Reader
import Stencil.Toml.Reader

/-!
# Objects in order

Texts are ordered by their characters from left to right, and the entries of a mapping stand in the
order of their keys, so that two mappings are the same if their keys lead to the same
(`Entries.eq_of_get?_eq`). What a document is read into keeps this order in all of its objects, at
every depth (`Json.isOrdered_ofText?`, `Toml.isOrdered_ofText?`), whatever the order and the
repetitions of the keys in the document.
-/

namespace Stencil

/-! ## The order of texts -/

namespace Text

theorem lt_or_lt_of_ne {a b : Char} (h : a ≠ b) : a < b ∨ b < a := by
  rcases Nat.lt_trichotomy a.toNat b.toNat with hlt | heq | hgt
  · exact .inl hlt
  · exact absurd (Char.ext (UInt32.toNat_inj.1 heq)) h
  · exact .inr hgt

theorem before_irrefl (t : Text) : before t t = false := by
  induction t with
  | nil => rfl
  | cons c cs ih =>
    have hc : ¬ c < c := fun h => Nat.lt_irrefl c.toNat h
    simp only [before, decide_eq_false hc, ih, Bool.and_false, Bool.or_false]

theorem before_trans {s t u : Text} (h : before s t = true) (h' : before t u = true) :
    before s u = true := by
  induction u generalizing s t with
  | nil => cases t <;> cases h'
  | cons c cs ih =>
    cases t with
    | nil => cases s <;> cases h
    | cons b bs =>
      cases s with
      | nil => rfl
      | cons a as =>
        simp only [before, Bool.or_eq_true, Bool.and_eq_true, decide_eq_true_eq,
          beq_iff_eq] at h h' ⊢
        rcases h with h | ⟨rfl, h⟩
        · rcases h' with h' | ⟨rfl, -⟩
          · exact .inl (Nat.lt_trans h h')
          · exact .inl h
        · rcases h' with h' | ⟨rfl, h'⟩
          · exact .inl h'
          · exact .inr ⟨rfl, ih h h'⟩

theorem before_or_before_of_ne {s t : Text} (h : s ≠ t) : before s t = true ∨ before t s = true := by
  induction s generalizing t with
  | nil =>
    cases t with
    | nil => exact absurd rfl h
    | cons b bs => exact .inl rfl
  | cons a as ih =>
    cases t with
    | nil => exact .inr rfl
    | cons b bs =>
      by_cases hab : a = b
      · subst hab
        rcases ih (fun e => h (by rw [e])) with hb | hb
        · exact .inl (by simp [before, hb])
        · exact .inr (by simp [before, hb])
      · rcases lt_or_lt_of_ne hab with hlt | hlt
        · exact .inl (by simp [before, hlt])
        · exact .inr (by simp [before, hlt])

theorem ne_of_before {s t : Text} (h : before s t = true) : s ≠ t := by
  rintro rfl
  rw [before_irrefl] at h
  cases h

end Text

/-! ## Entries in order -/

namespace Entries

variable {α : Type} {key : Text} {value : α} {entries : List (Text × α)}

/-- The keys ascend, so that none is there twice. -/
def IsSorted (entries : List (Text × α)) : Prop :=
  entries.Pairwise fun a b => Text.before a.1 b.1 = true

theorem mem_insert {entry : Text × α} (h : entry ∈ insert key value entries) :
    entry = (key, value) ∨ entry ∈ entries := by
  induction entries with
  | nil => simpa [insert] using h
  | cons head rest ih =>
    obtain ⟨k, v⟩ := head
    rw [insert] at h
    split at h
    · rcases List.mem_cons.1 h with h | h
      · exact .inl h
      · exact .inr (List.mem_cons_of_mem _ h)
    · split at h
      · exact List.mem_cons.1 h
      · rcases List.mem_cons.1 h with rfl | h
        · exact .inr List.mem_cons_self
        · exact (ih h).imp_right (List.mem_cons_of_mem _)

theorem isSorted_insert (h : IsSorted entries) (key : Text) (value : α) :
    IsSorted (insert key value entries) := by
  induction entries with
  | nil => exact List.pairwise_singleton ..
  | cons head rest ih =>
    obtain ⟨k, v⟩ := head
    obtain ⟨hhead, hrest⟩ := List.pairwise_cons.1 h
    rw [insert]
    split
    · next hk =>
      subst hk
      exact List.pairwise_cons.2 ⟨hhead, hrest⟩
    · next hk =>
      split
      · next hb =>
        refine List.pairwise_cons.2 ⟨fun entry he => ?_, h⟩
        rcases List.mem_cons.1 he with rfl | he
        · exact hb
        · exact Text.before_trans hb (hhead entry he)
      · next hb =>
        refine List.pairwise_cons.2 ⟨fun entry he => ?_, ih hrest⟩
        rcases mem_insert he with rfl | he
        · exact (Text.before_or_before_of_ne hk).resolve_right hb
        · exact hhead entry he

theorem ofList_induction {motive : List (Text × α) → Prop} (l : List (Text × α)) (nil : motive [])
    (insert : ∀ entry ∈ l, ∀ entries, motive entries → motive (insert entry.1 entry.2 entries)) :
    motive (ofList l) := by
  have key : ∀ (rest entries : List (Text × α)), (∀ entry ∈ rest, entry ∈ l) → motive entries →
      motive (rest.foldl (fun entries entry => Entries.insert entry.1 entry.2 entries) entries) := by
    intro rest
    induction rest with
    | nil => exact fun _ _ h => h
    | cons entry rest ih =>
      intro entries hsub h
      exact ih _ (fun e he => hsub e (List.mem_cons_of_mem _ he))
        (insert entry (hsub entry List.mem_cons_self) entries h)
  exact key l [] (fun _ h => h) nil

/-- **The entries of any list are put in order.** -/
theorem isSorted_ofList (l : List (Text × α)) : IsSorted (ofList l) :=
  ofList_induction l .nil fun entry _ _ h => isSorted_insert h entry.1 entry.2

theorem mem_of_mem_ofList {l : List (Text × α)} {entry : Text × α} (h : entry ∈ ofList l) :
    entry ∈ l := by
  revert h
  refine ofList_induction (motive := fun entries => entry ∈ entries → entry ∈ l) l (by simp) ?_
  intro e he entries ih h
  rcases mem_insert h with rfl | h
  · exact he
  · exact ih h

theorem get?_of_forall_before (h : ∀ entry ∈ entries, Text.before key entry.1 = true) :
    get? key entries = none := by
  induction entries with
  | nil => rfl
  | cons head rest ih =>
    rw [get?, if_neg (Text.ne_of_before (h head List.mem_cons_self)).symm]
    exact ih fun entry he => h entry (List.mem_cons_of_mem _ he)

theorem get?_of_before_first {first : Text × α} (h : IsSorted (first :: entries))
    (hb : Text.before key first.1 = true) : get? key (first :: entries) = none := by
  refine get?_of_forall_before (List.forall_mem_cons.2 ⟨hb, fun entry he => ?_⟩)
  exact Text.before_trans hb ((List.pairwise_cons.1 h).1 entry he)

/-- **Entries in order are told apart by their keys.** Of two different first keys, the one that
stands before the other leads nowhere in the other list. -/
theorem eq_of_get?_eq {entries' : List (Text × α)} (h : IsSorted entries) (h' : IsSorted entries')
    (hget : ∀ key, get? key entries = get? key entries') : entries = entries' := by
  induction entries generalizing entries' with
  | nil =>
    cases entries' with
    | nil => rfl
    | cons first rest => simpa [get?] using hget first.1
  | cons first rest ih =>
    cases entries' with
    | nil => simpa [get?] using hget first.1
    | cons first' rest' =>
      obtain ⟨k, v⟩ := first
      obtain ⟨k', v'⟩ := first'
      have hk : k = k' := by
        refine Decidable.byContradiction fun hne => ?_
        rcases Text.before_or_before_of_ne hne with hb | hb
        · have hnone := get?_of_before_first h' hb
          rw [← hget, get?, if_pos rfl] at hnone
          cases hnone
        · have hnone := get?_of_before_first h hb
          rw [hget, get?, if_pos rfl] at hnone
          cases hnone
      subst hk
      have hv : v = v' := by simpa [get?] using hget k
      have hrest : rest = rest' := by
        obtain ⟨hhead, hs⟩ := List.pairwise_cons.1 h
        obtain ⟨hhead', hs'⟩ := List.pairwise_cons.1 h'
        refine ih hs hs' fun key => ?_
        by_cases hkey : k = key
        · subst hkey
          rw [get?_of_forall_before hhead, get?_of_forall_before hhead']
        · simpa [get?, hkey] using hget key
      rw [hv, hrest]

end Entries

/-! ## Values in order -/

namespace Json

/-- The entries of all objects in the value are in order. -/
inductive IsOrdered : Json → Prop where
  | null : IsOrdered null
  | bool (b : Bool) : IsOrdered (bool b)
  | int (n : Int) : IsOrdered (int n)
  | float (x : Float) : IsOrdered (float x)
  | str (s : Text) : IsOrdered (str s)
  | arr {items : List Json} (h : ∀ item ∈ items, item.IsOrdered) : IsOrdered (arr items)
  | obj {entries : List (Text × Json)} (hs : Entries.IsSorted entries)
    (h : ∀ entry ∈ entries, entry.2.IsOrdered) : IsOrdered (obj entries)

theorem IsOrdered.ofList {l : List (Text × Json)} (h : ∀ entry ∈ l, entry.2.IsOrdered) :
    (Json.obj (Entries.ofList l)).IsOrdered :=
  .obj (Entries.isSorted_ofList l) fun entry he => h entry (Entries.mem_of_mem_ofList he)

theorem IsOrdered.at? {j last : Json} (h : j.IsOrdered) {path : List Text}
    (hp : j.at? path = some last) : last.IsOrdered := by
  induction path generalizing j with
  | nil => exact Option.some.inj hp ▸ h
  | cons key path ih =>
    rw [Json.at?] at hp
    cases h with
    | obj hs hentries =>
      split at hp
      · next value hvalue => exact ih (hentries _ (Entries.mem_of_get? hvalue)) hp
      · cases hp
    | _ => cases hp

theorem isOrdered_number {n : Number} {j : Json} (h : n.value? = some j) : j.IsOrdered := by
  have hfloat : ∀ (x? : Option Float) (f : Float → Float),
      (x?.map fun x => Json.float (f x)) = some j → j.IsOrdered := by
    intro x? f h
    obtain ⟨x, -, rfl⟩ := Option.map_eq_some_iff.1 h
    exact .float _
  unfold Number.value? at h
  simp only at h
  split at h
  · split at h
    · split at h
      · obtain rfl := Option.some.inj h
        exact .int _
      · exact hfloat _ _ h
    · split at h
      · obtain rfl := Option.some.inj h
        exact .int _
      · exact hfloat _ _ h
  · exact hfloat _ _ h

namespace Written

mutual

theorem isOrdered_value? {room : Nat} {w : Written} {j : Json} (h : value? room w = some j) :
    j.IsOrdered := by
  cases w with
  | null => cases h; exact .null
  | bool b => cases h; exact .bool b
  | number n => exact isOrdered_number h
  | str pieces =>
    obtain ⟨s, -, rfl⟩ := Option.map_eq_some_iff.1 h
    exact .str s
  | arr items =>
    rw [value?] at h
    split at h
    · cases h
    · obtain ⟨js, hjs, rfl⟩ := Option.map_eq_some_iff.1 h
      exact .arr (isOrdered_values? hjs)
  | obj members =>
    rw [value?] at h
    split at h
    · cases h
    · obtain ⟨l, hl, rfl⟩ := Option.map_eq_some_iff.1 h
      exact .ofList (isOrdered_entries? hl)

theorem isOrdered_values? {room : Nat} {items : List Written} {js : List Json}
    (h : values? room items = some js) : ∀ j ∈ js, j.IsOrdered := by
  cases items with
  | nil => cases h; simp
  | cons item rest =>
    simp only [values?, Option.bind_eq_bind, Option.bind_eq_some_iff, Option.pure_def,
      Option.some.injEq] at h
    obtain ⟨j, hj, js, hjs, rfl⟩ := h
    exact List.forall_mem_cons.2 ⟨isOrdered_value? hj, isOrdered_values? hjs⟩

theorem isOrdered_entries? {room : Nat} {members : List (List Piece × Written)}
    {l : List (Text × Json)} (h : entries? room members = some l) :
    ∀ entry ∈ l, entry.2.IsOrdered := by
  match members with
  | [] => cases h; simp
  | (key, item) :: rest =>
    simp only [entries?, Option.bind_eq_bind, Option.bind_eq_some_iff, Option.pure_def,
      Option.some.injEq] at h
    obtain ⟨k, -, j, hj, l, hl, rfl⟩ := h
    exact List.forall_mem_cons.2 ⟨isOrdered_value? hj, isOrdered_entries? hl⟩

end

end Written

/-- **A document is read in order.** -/
theorem isOrdered_ofText? {t : Text} {j : Json} (h : ofText? t = some j) : j.IsOrdered := by
  simp only [ofText?, Option.bind_eq_bind, Option.bind_eq_some_iff] at h
  obtain ⟨w, -, hj⟩ := h
  exact Written.isOrdered_value? hj

end Json

namespace Toml

namespace Value

mutual

theorem isOrdered_toJson? {v : Value} {j : Json} (h : toJson? v = some j) : j.IsOrdered := by
  cases v with
  | text s => cases h; exact .str s
  | dateTime d => cases h; exact .str _
  | integer n => cases h; exact .int n
  | float x =>
    obtain rfl := Option.some.inj h
    split
    · exact .float x
    · exact .null
  | truth b => cases h; exact .bool b
  | array items =>
    obtain ⟨js, hjs, rfl⟩ := Option.map_eq_some_iff.1 h
    exact .arr (isOrdered_itemsToJson? hjs)
  | table entries =>
    rw [toJson?] at h
    split at h
    · obtain ⟨d, -, rfl⟩ := Option.map_eq_some_iff.1 h
      exact .str _
    · obtain ⟨l, hl, rfl⟩ := Option.map_eq_some_iff.1 h
      exact .ofList (isOrdered_entriesToJson? hl)

theorem isOrdered_itemsToJson? {items : List Value} {js : List Json}
    (h : itemsToJson? items = some js) : ∀ j ∈ js, j.IsOrdered := by
  cases items with
  | nil => cases h; simp
  | cons item rest =>
    simp only [itemsToJson?, Option.bind_eq_bind, Option.bind_eq_some_iff, Option.pure_def,
      Option.some.injEq] at h
    obtain ⟨j, hj, js, hjs, rfl⟩ := h
    exact List.forall_mem_cons.2 ⟨isOrdered_toJson? hj, isOrdered_itemsToJson? hjs⟩

theorem isOrdered_entriesToJson? {entries : List (Text × Value)} {l : List (Text × Json)}
    (h : entriesToJson? entries = some l) : ∀ entry ∈ l, entry.2.IsOrdered := by
  match entries with
  | [] => cases h; simp
  | (key, value) :: rest =>
    simp only [entriesToJson?, Option.bind_eq_bind, Option.bind_eq_some_iff, Option.pure_def,
      Option.some.injEq] at h
    obtain ⟨j, hj, l, hl, rfl⟩ := h
    exact List.forall_mem_cons.2 ⟨isOrdered_toJson? hj, isOrdered_entriesToJson? hl⟩

end

end Value

/-- **A document is read in order.** -/
theorem isOrdered_ofText? {t : Text} {j : Json} (h : ofText? t = some j) : j.IsOrdered := by
  simp only [ofText?, Option.bind_eq_bind, Option.bind_eq_some_iff] at h
  obtain ⟨statements, -, table, -, hj⟩ := h
  exact Value.isOrdered_toJson? hj

/-- A document that is no object begins with a key that is reserved for date-times. -/
theorem exists_of_ofText? {t : Text} {j : Json} (h : ofText? t = some j) :
    (∃ entries, j = .obj entries) ∨ ∃ s, j = .str s := by
  simp only [ofText?, Option.bind_eq_bind, Option.bind_eq_some_iff] at h
  obtain ⟨statements, -, table, -, hj⟩ := h
  rw [Value.toJson?] at hj
  split at hj
  · obtain ⟨d, -, rfl⟩ := Option.map_eq_some_iff.1 hj
    exact .inr ⟨_, rfl⟩
  · obtain ⟨l, -, rfl⟩ := Option.map_eq_some_iff.1 hj
    exact .inl ⟨_, rfl⟩

end Toml

end Stencil
