import Stencil.Context
import Stencil.Loop.Basic
import Stencil.Proofs.Text.Split

/-!
# The keys that loops run through

A loop runs through the positions of a list or the keys of a mapping. `Context.loopKeys` are all of
them that a context holds, at any depth; `mem_loopKeys_of_get?` says that no loop over a value of
the context runs through any other.
-/

namespace Stencil

namespace Value

mutual

/-- What `f` gives of the value and of all values inside. -/
def gather (f : Value → List Text) : Value → List Text
  | list items => f (list items) ++ gatherItems f items
  | dict entries => f (dict entries) ++ gatherEntries f entries
  | value => f value

/-- What `f` gives of the items of a list and of all values inside. -/
def gatherItems (f : Value → List Text) : List Value → List Text
  | [] => []
  | item :: rest => gather f item ++ gatherItems f rest

/-- What `f` gives of the values of a mapping and of all values inside. -/
def gatherEntries (f : Value → List Text) : List (Text × Value) → List Text
  | [] => []
  | (_, value) :: rest => gather f value ++ gatherEntries f rest

end

/-- The keys of the value, if it is a mapping. -/
def mappingKeys : Value → List Text
  | dict entries => entries.map (·.1)
  | _ => []

variable {f : Value → List Text} {key : Text}

theorem mem_gather_self {value : Value} (h : key ∈ f value) : key ∈ value.gather f := by
  cases value with
  | list items => exact List.mem_append_left _ h
  | dict entries => exact List.mem_append_left _ h
  | _ => exact h

theorem mem_gatherItems {items : List Value} {i : Nat} {value : Value}
    (hi : items[i]? = some value) (h : key ∈ value.gather f) : key ∈ gatherItems f items := by
  induction items generalizing i with
  | nil => cases hi
  | cons item rest ih =>
    rw [gatherItems, List.mem_append]
    cases i with
    | zero =>
      obtain rfl : item = value := by simpa using hi
      exact .inl h
    | succ i => exact .inr (ih (by simpa using hi))

theorem mem_gatherEntries {entries : List (Text × Value)} {name : Text} {value : Value}
    (hn : Entries.get? name entries = some value) (h : key ∈ value.gather f) :
    key ∈ gatherEntries f entries := by
  induction entries with
  | nil => cases hn
  | cons entry rest ih =>
    obtain ⟨k, v⟩ := entry
    rw [gatherEntries, List.mem_append]
    rw [Entries.get?] at hn
    split at hn
    · obtain rfl := Option.some.inj hn
      exact .inl h
    · exact .inr (ih hn)

theorem mem_gather_of_step? {value inner : Value} {segment : Text}
    (hs : value.step? segment = some inner) (h : key ∈ inner.gather f) : key ∈ value.gather f := by
  cases value with
  | list items =>
    obtain ⟨i, -, hi⟩ := Option.bind_eq_some_iff.1 hs
    exact List.mem_append_right _ (mem_gatherItems hi h)
  | dict entries => exact List.mem_append_right _ (mem_gatherEntries hs h)
  | _ => cases hs

end Value

namespace Context

/-- The keys that loops over the values of the context run through. -/
def loopKeys (context : Context) : List Text := Value.gatherEntries iterationKeys context.entries

/-- The keys of the context and of all mappings in it. -/
def mappingKeys (context : Context) : List Text :=
  context.entries.map (·.1) ++ Value.gatherEntries Value.mappingKeys context.entries

/-- The keys that loops run through are made of letters, digits and underscores. -/
def HasWordKeys (context : Context) : Prop :=
  ∀ key ∈ context.loopKeys, ∀ c ∈ key, (isAlphanumeric c || c == '_') = true

instance (context : Context) : Decidable context.HasWordKeys :=
  inferInstanceAs (Decidable (∀ key ∈ context.loopKeys, ∀ c ∈ key, _))

theorem mem_gather_of_follow? {f : Value → List Text} {value inner : Value} {segments : List Text}
    {key : Text} (hs : follow? value segments = some inner) (h : key ∈ inner.gather f) :
    key ∈ value.gather f := by
  induction segments generalizing value with
  | nil =>
    obtain rfl := Option.some.inj hs
    exact h
  | cons segment rest ih =>
    obtain ⟨next, hn, hr⟩ := Option.bind_eq_some_iff.1 hs
    exact Value.mem_gather_of_step? hn (ih hr)

/-- **A loop runs through keys of the context.** -/
theorem mem_loopKeys_of_get? {context : Context} {path : Text} {value : Value} {key : Text}
    (hg : context.get? path = some value) (h : key ∈ iterationKeys value) :
    key ∈ context.loopKeys := by
  unfold get? at hg
  split at hg
  · cases hg
  · obtain ⟨root, hr, hf⟩ := Option.bind_eq_some_iff.1 hg
    exact Value.mem_gatherEntries hr (mem_gather_of_follow? hf (Value.mem_gather_self h))

end Context

end Stencil
