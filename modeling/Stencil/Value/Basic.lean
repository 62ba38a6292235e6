import Stencil.Json.Basic
import Stencil.Numeral.Reading
import Stencil.Numeral.Shortest
import Stencil.Text.Blank

/-!
# Values

The data a page shows: texts, numbers, truth values, lists and mappings. A value has three faces:
the text an interpolation shows, the structural dump that collections show, and the truth value a
condition takes it for.
-/

namespace Stencil

/-- A value of the data. The entries of a mapping are in ascending order of their keys. -/
inductive Value where
  /-- A text. -/
  | str (s : Text)
  /-- A whole number. -/
  | int (n : Int)
  /-- A float. -/
  | float (x : Float)
  /-- A truth value. -/
  | bool (b : Bool)
  /-- A list. -/
  | list (items : List Value)
  /-- A mapping. -/
  | dict (entries : List (Text × Value))
  /-- The absence of a value. -/
  | null
deriving Inhabited

namespace Value

/-- Whether the value is the absence of one. -/
def isNull : Value → Bool
  | null => true
  | _ => false

/-- Whether a condition takes the value for true. The text of a zero is false; a float that is no
number is true. -/
def isTruthy : Value → Bool
  | null => false
  | bool b => b
  | int n => n ≠ 0
  | float x => x != 0.0
  | str s => !s.isEmpty && s != ['0']
  | list items => !items.isEmpty
  | dict entries => !entries.isEmpty

/-- A truth value as text. -/
def boolText (b : Bool) : Text :=
  if b then "true".toList else "false".toList

mutual

/-- The structure of the value: texts between quotes, collections between brackets. -/
def dump : Value → Text
  | str s => '\'' :: s ++ ['\'']
  | int n => Text.ofInt n
  | float x => Text.ofFloat x
  | bool b => boolText b
  | list items => '[' :: dumpItems items ++ [']']
  | dict entries => '{' :: dumpEntries entries ++ ['}']
  | null => "None".toList

/-- The items of a list with commas between them. -/
def dumpItems : List Value → Text
  | [] => []
  | [item] => dump item
  | item :: next :: rest => dump item ++ ", ".toList ++ dumpItems (next :: rest)

/-- The entries of a mapping with commas between them. -/
def dumpEntries : List (Text × Value) → Text
  | [] => []
  | [(key, value)] => '\'' :: key ++ "': ".toList ++ dump value
  | (key, value) :: next :: rest =>
    '\'' :: key ++ "': ".toList ++ dump value ++ ", ".toList ++ dumpEntries (next :: rest)

end

/-- The text an interpolation shows: a text as it is, nothing for the absence of a value, and the
dump of anything else. -/
def display : Value → Text
  | str s => s
  | null => []
  | value => dump value

/-- The number the value stands for in a comparison. A text counts if it holds a number with nothing
but blanks around it; truth values and collections do not count. -/
def toFloat? : Value → Option Float
  | float x => some x
  | int n => some (Float.ofInt n)
  | str s => Numeral.float? (Text.trim s)
  | _ => none

/-- The text, if the value is one. -/
def text? : Value → Option Text
  | str s => some s
  | _ => none

/-- The number of bytes of a text, of items of a list, of entries of a mapping. -/
def size? : Value → Option Nat
  | str s => some (Text.utf8Size s)
  | list items => some items.length
  | dict entries => some entries.length
  | _ => none

mutual

/-- Equality of values. A whole number equals a float of the same size, also inside collections;
a float that is no number equals nothing. -/
def same : Value → Value → Bool
  | str a, str b => a == b
  | int a, int b => a == b
  | float a, float b => a == b
  | int a, float b => Float.ofInt a == b
  | float a, int b => Float.ofInt b == a
  | bool a, bool b => a == b
  | null, null => true
  | list as, list bs => sameItems as bs
  | dict as, dict bs => sameEntries as bs
  | _, _ => false

/-- Equality of lists, item by item. -/
def sameItems : List Value → List Value → Bool
  | [], [] => true
  | a :: as, b :: bs => same a b && sameItems as bs
  | _, _ => false

/-- Equality of mappings, entry by entry. -/
def sameEntries : List (Text × Value) → List (Text × Value) → Bool
  | [], [] => true
  | (k, a) :: as, (l, b) :: bs => k == l && same a b && sameEntries as bs
  | _, _ => false

end

/-- Whether two values are of one kind; a whole number and a float are not. -/
def sameKind : Value → Value → Bool
  | str _, str _ | int _, int _ | float _, float _ | bool _, bool _ | list _, list _
  | dict _, dict _ | null, null => true
  | _, _ => false

/-- What one segment of a path leads to: the entry of a mapping or the item of a list. -/
def step? (segment : Text) : Value → Option Value
  | dict entries => Entries.get? segment entries
  | list items => (Numeral.index? segment).bind (items[·]?)
  | _ => none

mutual

/-- The value of a JSON value. A whole number beyond sixty-four bits with sign becomes a float. -/
def ofJson : Json → Value
  | .null => null
  | .bool b => bool b
  | .int n => if Numeral.isInt64 n then int n else float (Float.ofInt n)
  | .float x => float x
  | .str s => str s
  | .arr items => list (ofJsonItems items)
  | .obj entries => dict (ofJsonEntries entries)

/-- The values of the items of an array. -/
def ofJsonItems : List Json → List Value
  | [] => []
  | item :: rest => ofJson item :: ofJsonItems rest

/-- The values of the entries of an object. -/
def ofJsonEntries : List (Text × Json) → List (Text × Value)
  | [] => []
  | (key, item) :: rest => (key, ofJson item) :: ofJsonEntries rest

end

end Value

end Stencil
