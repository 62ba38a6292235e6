import Stencil.Json.Basic

/-!
# Merging JSON values

Two objects are merged entry by entry, at every depth; anywhere else the second value replaces the
first.
-/

namespace Stencil.Json

mutual

/-- The first value with the second one laid over it. -/
def merge (base : Json) : Json → Json
  | .obj overrides =>
    match base with
    | .obj entries => .obj (mergeEntries entries overrides)
    | _ => .obj overrides
  | overrides => overrides

/-- The entries with others laid over them. -/
def mergeEntries (base : List (Text × Json)) : List (Text × Json) → List (Text × Json)
  | [] => base
  | (key, value) :: rest =>
    let merged := match Entries.get? key base with
      | some old => merge old value
      | none => value
    mergeEntries (Entries.insert key merged base) rest

end

end Stencil.Json
