import Mathlib.Data.Finset.Lattice.Fold
import Stencil.Proofs.Engine.Source
import Stencil.Proofs.Termination.Bound

/-!
# What there is to walk is limited

The data of a render is finite, so that there is a limit to the keys of a loop (`exists_rounds`). If
all templates are in tables, there is a limit to the names that templates can be loaded by
(`exists_names`): the name is what comes last in the key. In a directory one template may have any
number of names.
-/

namespace Stencil

/-! ## Keys of loops -/

theorem Entries.sizeOf_of_get? {α : Type} [SizeOf α] {key : Text} {entries : List (Text × α)}
    {value : α} (h : get? key entries = some value) : sizeOf value < sizeOf entries := by
  have hentry := List.sizeOf_lt_of_mem (mem_of_get? h)
  rw [Prod.mk.sizeOf_spec] at hentry
  omega

theorem length_le_sizeOf {α : Type} [SizeOf α] (l : List α) : l.length ≤ sizeOf l := by
  induction l with
  | nil => exact Nat.zero_le _
  | cons a l ih =>
    rw [List.length_cons, List.cons.sizeOf_spec]
    omega

namespace Value

theorem sizeOf_of_step? {segment : Text} {value inner : Value} (h : value.step? segment = some inner) :
    sizeOf inner < sizeOf value := by
  unfold step? at h
  cases value with
  | dict entries =>
    have hlt := Entries.sizeOf_of_get? h
    rw [dict.sizeOf_spec]
    omega
  | list items =>
    obtain ⟨i, -, hi⟩ := Option.bind_eq_some_iff.1 h
    have hlt := List.sizeOf_lt_of_mem (List.mem_of_getElem? hi)
    rw [list.sizeOf_spec]
    omega
  | _ => cases h

theorem length_iterationKeys_le (value : Value) : (iterationKeys value).length ≤ sizeOf value := by
  unfold iterationKeys
  split
  · next items =>
    have hle := length_le_sizeOf items
    rw [List.length_map, List.length_range, list.sizeOf_spec]
    omega
  · next entries =>
    have hle := length_le_sizeOf entries
    rw [List.length_map, dict.sizeOf_spec]
    omega
  · exact Nat.zero_le _

end Value

namespace Context

theorem sizeOf_of_follow? {value inner : Value} {path : List Text}
    (h : follow? value path = some inner) : sizeOf inner ≤ sizeOf value := by
  induction path generalizing value with
  | nil =>
    obtain rfl := Option.some.inj h
    exact Nat.le_refl _
  | cons segment rest ih =>
    rw [follow?] at h
    obtain ⟨next, hstep, hrest⟩ := Option.bind_eq_some_iff.1 h
    exact Nat.le_trans (ih hrest) (Nat.le_of_lt (Value.sizeOf_of_step? hstep))

theorem sizeOf_of_get? {context : Context} {path : Text} {value : Value}
    (h : context.get? path = some value) : sizeOf value ≤ sizeOf context.entries := by
  unfold get? at h
  split at h
  · cases h
  · obtain ⟨root, hroot, hrest⟩ := Option.bind_eq_some_iff.1 h
    exact Nat.le_trans (sizeOf_of_follow? hrest) (Nat.le_of_lt (Entries.sizeOf_of_get? hroot))

end Context

/-- **There is a limit to the keys of a loop.** -/
theorem Render.exists_rounds (context : Context) : ∃ rounds, Rounds context rounds := by
  refine ⟨sizeOf context.entries, fun header keys h => ?_⟩
  unfold loopKeys at h
  split at h
  · next collection hget =>
    obtain rfl := Except.ok.inj h
    exact Nat.le_trans collection.length_iterationKeys_le (Context.sizeOf_of_get? hget)
  · split at h
    · obtain rfl := Except.ok.inj h
      exact Nat.zero_le _
    · cases h

/-! ## Names of templates -/

namespace Engine

/-- All templates are in tables. -/
def InMemory (engine : Engine) : Prop :=
  ∀ loader ∈ engine.loaders, ∃ templates, loader = .table templates

theorem exists_key_eq_append (subdirs : List Text) :
    ∃ front, ∀ name, Loader.key name subdirs = front ++ name := by
  induction subdirs with
  | nil => exact ⟨[], fun name => rfl⟩
  | cons dir rest ih =>
    obtain ⟨front, hfront⟩ := ih
    refine ⟨dir ++ '/' :: front, fun name => ?_⟩
    have hkey : Loader.key name (dir :: rest) = dir ++ '/' :: Loader.key name rest := by
      unfold Loader.key
      rw [List.cons_append, Text.join_cons (by simp)]
    rw [hkey, hfront, List.append_assoc, List.cons_append]

/-- The keys of a table. -/
def keysOf : Loader → List Text
  | .table templates => templates.map Prod.fst
  | .directory _ _ => []

/-- **There is a limit to the names of templates** if all of them are in tables. -/
theorem exists_names {engine : Engine} (h : engine.InMemory) (subdirs : List Text) :
    ∃ names : Finset Text, ∀ {name : Text} {lines : List Text},
      engine.loadLines name subdirs = .ok lines → name ∈ names := by
  obtain ⟨front, hfront⟩ := exists_key_eq_append subdirs
  refine ⟨(((Loader.table engine.templates :: engine.loaders).flatMap keysOf).map
    (List.drop front.length)).toFinset, fun {name lines} hl => ?_⟩
  obtain ⟨loader, hmem, hlines⟩ := exists_loader_of_loadLines hl
  have hloader : loader ∈ Loader.table engine.templates :: engine.loaders := by
    rcases hmem with hmem | rfl
    · exact List.mem_cons_of_mem _ hmem
    · exact List.mem_cons_self
  obtain ⟨templates, rfl⟩ : ∃ templates, loader = .table templates := by
    rcases hmem with hmem | rfl
    · exact h loader hmem
    · exact ⟨_, rfl⟩
  have hkey : Loader.key name subdirs ∈ templates.map Prod.fst := by
    simp only [Loader.loadLines, Loader.load] at hlines
    cases hg : Entries.get? (Loader.key name subdirs) templates with
    | some source => exact List.mem_map.2 ⟨_, Entries.mem_of_get? hg, rfl⟩
    | none =>
      rw [hg] at hlines
      cases hlines
  rw [List.mem_toFinset, List.mem_map]
  refine ⟨Loader.key name subdirs, List.mem_flatMap.2 ⟨_, hloader, hkey⟩, ?_⟩
  rw [hfront, List.drop_left]

/-- There is a limit to the weight of a template. -/
theorem exists_weight_le (engine : Engine) (rounds : Nat) (subdirs : List Text) :
    ∃ size, ∀ {name : Text} {lines : List Text}, engine.loadLines name subdirs = .ok lines →
      weight rounds 0 (Layer.ofSource .inclusion lines).lines ≤ size := by
  let size := fun source => weight rounds 0 (Layer.ofSource .inclusion (splitLines source)).lines
  refine ⟨engine.sources.toFinset.sup size, fun {name lines} hl => ?_⟩
  obtain ⟨source, hsource, rfl⟩ := exists_source_of_loadLines hl
  have hle : size source ≤ engine.sources.toFinset.sup size :=
    Finset.le_sup (List.mem_toFinset.2 hsource)
  exact hle

/-- **What there is to walk is limited** if all templates are in tables. -/
theorem exists_bounded {engine : Engine} (h : engine.InMemory) (context : Context) :
    ∃ rounds size partials, Render.Bounded engine context rounds size partials := by
  obtain ⟨rounds, hrounds⟩ := Render.exists_rounds context
  obtain ⟨partials, hpartials⟩ := exists_names h engine.includesDir
  obtain ⟨size, hsize⟩ := exists_weight_le engine rounds engine.includesDir
  exact ⟨rounds, size, partials, hrounds, hpartials, hsize⟩

end Engine

end Stencil
