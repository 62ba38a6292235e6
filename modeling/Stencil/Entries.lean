import Stencil.Text.Basic

/-!
# Entries by key

Mappings are lists of entries in ascending order of their keys, one entry a key. `insert` keeps the
order and replaces the entry of a key that is there already, so that of two values written for one
key the last one stays.
-/

namespace Stencil.Entries

variable {α : Type}

/-- The value stored for a key. -/
def get? (key : Text) : List (Text × α) → Option α
  | [] => none
  | (k, v) :: rest => if k = key then some v else get? key rest

/-- Whether the key has a value. -/
def contains (key : Text) (entries : List (Text × α)) : Bool :=
  (get? key entries).isSome

/-- Stores a value for a key, in place of the one it has or else where its order puts it. -/
def insert (key : Text) (value : α) : List (Text × α) → List (Text × α)
  | [] => [(key, value)]
  | (k, v) :: rest =>
    if k = key then (key, value) :: rest
    else if Text.before key k then (key, value) :: (k, v) :: rest
    else (k, v) :: insert key value rest

/-- The entries of a list in which keys may repeat; the last value of a key stays. -/
def ofList (l : List (Text × α)) : List (Text × α) :=
  l.foldl (fun entries (k, v) => insert k v entries) []

theorem get?_insert_self (key : Text) (value : α) (entries : List (Text × α)) :
    get? key (insert key value entries) = some value := by
  induction entries with
  | nil => simp [insert, get?]
  | cons e rest ih =>
    obtain ⟨k, v⟩ := e
    by_cases h : k = key
    · simp [insert, get?, h]
    · by_cases hb : Text.before key k
      · simp [insert, get?, h, hb]
      · simp [insert, get?, h, hb, ih]

theorem get?_insert_of_ne {key other : Text} (h : other ≠ key) (value : α)
    (entries : List (Text × α)) : get? other (insert key value entries) = get? other entries := by
  induction entries with
  | nil => simp [insert, get?, h.symm]
  | cons e rest ih =>
    obtain ⟨k, v⟩ := e
    by_cases hk : k = key
    · subst hk; simp [insert, get?, h.symm]
    · by_cases hb : Text.before key k
      · simp [insert, get?, hk, hb, h.symm]
      · simp [insert, get?, hk, hb, ih]

theorem mem_of_get? {key : Text} {entries : List (Text × α)} {value : α}
    (h : get? key entries = some value) : (key, value) ∈ entries := by
  induction entries with
  | nil => cases h
  | cons entry rest ih =>
    obtain ⟨k, v⟩ := entry
    rw [get?] at h
    split at h
    · next heq =>
      obtain rfl := Option.some.inj h
      rw [heq]
      exact List.mem_cons_self
    · exact List.mem_cons_of_mem _ (ih h)

end Stencil.Entries
