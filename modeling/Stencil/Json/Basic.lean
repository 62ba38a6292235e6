import Stencil.Entries

/-!
# JSON values

A JSON value as a program uses it: objects are mappings in key order, and a number is a whole
number or a float, which stay apart.
-/

namespace Stencil

/-- A JSON value. The entries of an object are in ascending order of their keys. -/
inductive Json where
  /-- The null value. -/
  | null
  /-- A truth value. -/
  | bool (b : Bool)
  /-- A whole number. -/
  | int (n : Int)
  /-- A number with a fraction or an exponent, or too large for a whole number. -/
  | float (x : Float)
  /-- A string. -/
  | str (s : Text)
  /-- An array. -/
  | arr (items : List Json)
  /-- An object. -/
  | obj (entries : List (Text × Json))
deriving Inhabited

namespace Json

/-- The field of an object. -/
def field? (key : Text) : Json → Option Json
  | obj entries => Entries.get? key entries
  | _ => none

/-- The text of a string. -/
def str? : Json → Option Text
  | str s => some s
  | _ => none

/-- The truth value. -/
def bool? : Json → Option Bool
  | bool b => some b
  | _ => none

/-- The items of an array. -/
def items? : Json → Option (List Json)
  | arr items => some items
  | _ => none

/-- The entries of an object. -/
def entries? : Json → Option (List (Text × Json))
  | obj entries => some entries
  | _ => none

/-- The texts of an array of strings. -/
def texts? (j : Json) : Option (List Text) := do
  (← j.items?).mapM str?

/-- The value a path of object keys leads to. -/
def at? : List Text → Json → Option Json
  | [], j => some j
  | key :: path, j =>
    match j.field? key with
    | some value => at? path value
    | none => none

end Json

end Stencil
