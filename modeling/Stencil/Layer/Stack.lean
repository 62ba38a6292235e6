import Stencil.Layer.Basic

/-!
# Stacks of layers

The layers of a render by name, in the order in which the page shows them. A name is held by one
layer; creating a layer under a name that is taken replaces the layer and keeps its place, unless
the new layer is asked for at the front.
-/

namespace Stencil

/-- Named layers, from front to back. -/
structure Stack where
  /-- The layers with their names. -/
  layers : List (Text × Layer) := []
deriving DecidableEq, Repr, Inhabited

namespace Stack

/-- The layer of a name. -/
def get? (stack : Stack) (name : Text) : Option Layer :=
  (stack.layers.find? (·.1 = name)).map (·.2)

/-- Whether a layer has the name. -/
def contains (stack : Stack) (name : Text) : Bool := stack.layers.any (·.1 = name)

/-- The number of layers before the layer of that name. -/
def position? (stack : Stack) (name : Text) : Option Nat :=
  stack.layers.findIdx? (·.1 = name)

/-- The names, from front to back. -/
def names (stack : Stack) : List Text := stack.layers.map (·.1)

/-- The number of layers. -/
def size (stack : Stack) : Nat := stack.layers.length

/-- The name of a layer under a label. -/
def fullName (label? : Option Text) (name : Text) : Text :=
  match label? with
  | some label => label ++ '.' :: name
  | none => name

/-- The stack without the layer of that name. -/
def erase (stack : Stack) (name : Text) : Stack :=
  { layers := stack.layers.eraseP (·.1 = name) }

/-- The stack with a layer changed in its place. -/
def modify (stack : Stack) (name : Text) (f : Layer → Layer) : Stack :=
  { layers := stack.layers.map fun (n, layer) => if n = name then (n, f layer) else (n, layer) }

/-- Stores a layer under a name: in the place of the layer that has it, or else at the back. -/
def insert (stack : Stack) (name : Text) (layer : Layer) : Stack :=
  if stack.contains name then stack.modify name fun _ => layer
  else { layers := stack.layers ++ [(name, layer)] }

/-- Stores a layer under a name at the front. -/
def insertFront (stack : Stack) (name : Text) (layer : Layer) : Stack :=
  { layers := (name, layer) :: (stack.erase name).layers }

/-- Drops the discarded lines of a layer, and the layer itself if nothing visible is left. -/
def clean (stack : Stack) (name : Text) : Stack :=
  match stack.get? name with
  | none => stack
  | some layer =>
    if layer.clean.isVisible then stack.modify name Layer.clean else stack.erase name

/-- The texts of all layers, from front to back. -/
def join (stack : Stack) : Text := stack.layers.flatMap fun (_, layer) => layer.render

/-- A name that no layer has under the label: the name itself, or else the name with the first
number from two on that is free. Among as many numbers as there are layers, and one more, one is
free. -/
def freshName (stack : Stack) (label : Text) (name : Text) : Text :=
  let candidates := name :: (List.range stack.size).map fun n => name ++ '#' :: Text.ofNat (n + 2)
  (candidates.find? fun c => !stack.contains (fullName (some label) c)).getD name

@[simp] theorem names_modify (stack : Stack) (name : Text) (f : Layer → Layer) :
    (stack.modify name f).names = stack.names := by
  simp only [modify, names, List.map_map]
  congr 1
  funext entry
  by_cases h : entry.1 = name <;> simp [h]

theorem get?_modify (stack : Stack) (name other : Text) (f : Layer → Layer) :
    (stack.modify name f).get? other =
      if other = name then (stack.get? name).map f else stack.get? other := by
  obtain ⟨layers⟩ := stack
  simp only [modify, get?]
  induction layers with
  | nil => simp
  | cons entry rest ih =>
    obtain ⟨n, layer⟩ := entry
    by_cases hn : n = name
    · by_cases ho : n = other
      · subst hn; subst ho; simp
      · have h : ¬ other = name := fun e => ho (hn.trans e.symm)
        simpa [hn, ho, h, Ne.symm h] using ih
    · by_cases ho : n = other
      · have h : ¬ other = name := fun e => hn (ho.trans e)
        simp [ho, h]
      · simpa [hn, ho] using ih

theorem get?_insertFront_self (stack : Stack) (name : Text) (layer : Layer) :
    (stack.insertFront name layer).get? name = some layer := by
  simp [insertFront, get?]

theorem isSome_get? (stack : Stack) (name : Text) :
    (stack.get? name).isSome = stack.contains name := by
  obtain ⟨layers⟩ := stack
  simp only [get?, contains, Option.isSome_map]
  induction layers with
  | nil => rfl
  | cons entry rest ih => by_cases h : entry.1 = name <;> simp_all

theorem get?_insert_self (stack : Stack) (name : Text) (layer : Layer) :
    (stack.insert name layer).get? name = some layer := by
  have h := isSome_get? stack name
  unfold insert
  split
  next hc =>
    obtain ⟨old, ho⟩ := Option.isSome_iff_exists.1 (h.trans hc)
    simp [get?_modify, ho]
  next hc =>
    have hn : stack.get? name = none := by simpa [hc] using h
    have hf : stack.layers.find? (·.1 = name) = none := by simpa [get?] using hn
    simp [get?, List.find?_append, hf]

theorem get?_insert_of_ne (stack : Stack) {name other : Text} (h : other ≠ name) (layer : Layer) :
    (stack.insert name layer).get? other = stack.get? other := by
  unfold insert
  split
  · simp [get?_modify, h]
  · simp [get?, List.find?_append, h.symm]

end Stack

end Stencil
