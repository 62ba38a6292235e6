import Stencil.Text.Basic

/-!
# Listings

A listing keeps one value a key, in the order in which the keys were first given. `put` leaves a key
in its place when it only changes the value; a key that was erased and is put again comes last.
-/

namespace Stencil.Listing

variable {α : Type}

/-- The value of a key. -/
def get? (key : Text) (listing : List (Text × α)) : Option α :=
  (listing.find? (·.1 = key)).map (·.2)

/-- Gives a key a value: in the place that the key has, or else at the end. -/
def put (key : Text) (value : α) : List (Text × α) → List (Text × α)
  | [] => [(key, value)]
  | entry :: rest => if entry.1 = key then (key, value) :: rest else entry :: put key value rest

/-- The listing without a key. -/
def erase (key : Text) (listing : List (Text × α)) : List (Text × α) :=
  listing.eraseP (·.1 = key)

theorem get?_put_self (key : Text) (value : α) (listing : List (Text × α)) :
    get? key (put key value listing) = some value := by
  induction listing with
  | nil => simp [put, get?]
  | cons entry rest ih =>
    by_cases h : entry.1 = key
    · simp [put, get?, h]
    · simpa [put, get?, h] using ih

theorem get?_put_of_ne {key other : Text} (h : other ≠ key) (value : α)
    (listing : List (Text × α)) : get? other (put key value listing) = get? other listing := by
  induction listing with
  | nil => simp [put, get?, h.symm]
  | cons entry rest ih =>
    by_cases hk : entry.1 = key
    · simp [put, get?, hk, h.symm]
    · by_cases ho : entry.1 = other
      · rw [put, if_neg hk]
        simp [get?, ho]
      · simpa [put, get?, hk, List.find?_cons, ho] using ih

/-- A key that is there keeps its place. -/
theorem keys_put_of_mem {key : Text} {listing : List (Text × α)} (h : key ∈ listing.map (·.1))
    (value : α) : (put key value listing).map (·.1) = listing.map (·.1) := by
  induction listing with
  | nil => simp at h
  | cons entry rest ih =>
    by_cases hk : entry.1 = key
    · simp [put, hk]
    · have : key ∈ rest.map (·.1) := by simpa [Ne.symm hk] using h
      simp [put, hk, ih this]

/-- A key that is new comes last. -/
theorem keys_put_of_not_mem {key : Text} {listing : List (Text × α)}
    (h : key ∉ listing.map (·.1)) (value : α) :
    (put key value listing).map (·.1) = listing.map (·.1) ++ [key] := by
  induction listing with
  | nil => simp [put]
  | cons entry rest ih =>
    have hk : ¬ entry.1 = key := fun e => h (by simp [e])
    have hr : key ∉ rest.map (·.1) := fun e => h (by simp [e])
    simp [put, hk, ih hr]

/-- In a listing without repeated keys, a key leads to the value beside it. -/
theorem get?_of_mem {listing : List (Text × α)} {entry : Text × α}
    (h : (listing.map (·.1)).Nodup) (hm : entry ∈ listing) :
    get? entry.1 listing = some entry.2 := by
  induction listing with
  | nil => cases hm
  | cons first rest ih =>
    obtain ⟨hnew, hrest⟩ := List.nodup_cons.1 h
    rcases List.mem_cons.1 hm with rfl | hm
    · simp [get?]
    · have hne : ¬ first.1 = entry.1 := by
        intro e
        exact hnew (List.mem_map.2 ⟨entry, hm, e.symm⟩)
      simpa [get?, List.find?_cons, hne] using ih hrest hm

end Stencil.Listing
