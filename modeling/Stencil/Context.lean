import Stencil.Error
import Stencil.Json.Printer
import Stencil.Json.Reader
import Stencil.Value.Basic

/-!
# Contexts

A context is the data of one render: values by top-level name. A dotted path names a value inside:
its first segment is a top-level name, and each further segment leads one step on. Rendering reads
the context and never changes it.
-/

namespace Stencil

/-- The data of a render, in ascending order of the names. -/
structure Context where
  /-- The values by name. -/
  entries : List (Text × Value) := []
deriving Inhabited

namespace Context

/-- The segments of a dotted path. -/
def segments (path : Text) : List Text := Text.splitOn '.' path

/-- The value reached from `value` by the segments. -/
def follow? (value : Value) : List Text → Option Value
  | [] => some value
  | segment :: rest => (value.step? segment).bind (follow? · rest)

/-- The value a dotted path names. -/
def get? (context : Context) (path : Text) : Option Value :=
  match segments path with
  | [] => none
  | root :: rest => (Entries.get? root context.entries).bind (follow? · rest)

/-- Whether there is a value of that top-level name. -/
def contains (context : Context) (name : Text) : Bool :=
  Entries.contains name context.entries

/-- Gives a top-level name a value. -/
def insert (context : Context) (name : Text) (value : Value) : Context :=
  { entries := Entries.insert name value context.entries }

/-- The context with the given values; of two for one name the last stays. -/
def ofList (l : List (Text × Value)) : Context :=
  { entries := Entries.ofList l }

/-- Whether two contexts hold equal values under equal names. -/
def same (a b : Context) : Bool := Value.sameEntries a.entries b.entries

/-- The context of a JSON value, which has to be an object. -/
def ofJson (json : Json) : Except Error Context :=
  match json with
  | .obj entries => .ok { entries := Value.ofJsonEntries entries }
  | other =>
    .error (.serialization ("Template data must be a JSON object, got ".toList ++ other.compact))

/-- The context of a JSON document. -/
def ofText (t : Text) : Except Error Context :=
  match Json.ofText? t with
  | some json => ofJson json
  | none => .error (.serialization "Failed to parse data: malformed JSON".toList)

end Context

end Stencil
