import Stencil.Json.Written

/-!
# Reading JSON

A recursive reader of the JSON grammar. Each function takes a text and returns what it read together
with the rest. The count that the mutual functions carry bounds their calls; twice the length of the
text is enough, since every second call takes a character.
-/

namespace Stencil.Json

namespace Reader

/-- The text without the blanks that may stand between tokens. -/
def skipBlank (t : Text) : Text :=
  t.dropWhile fun c => c == ' ' || c == '\n' || c == '\t' || c == '\r'

/-- The value of a hexadecimal digit in either case. -/
def hexValue? (c : Char) : Option Nat :=
  if c.isDigit then some (c.toNat - '0'.toNat)
  else if 'a' ≤ c && c ≤ 'f' then some (c.toNat - 'a'.toNat + 10)
  else if 'A' ≤ c && c ≤ 'F' then some (c.toNat - 'A'.toNat + 10)
  else none

/-- The number that four hexadecimal digits stand for. -/
def unit? (a b c d : Char) : Option Nat := do
  return 0x1000 * (← hexValue? a) + 0x100 * (← hexValue? b) + 0x10 * (← hexValue? c) +
    (← hexValue? d)

/-- The character of a short escape. -/
def shortEscape? : Char → Option Char
  | '"' => some '"'
  | '\\' => some '\\'
  | '/' => some '/'
  | 'b' => some '\x08'
  | 'f' => some '\x0c'
  | 'n' => some '\n'
  | 'r' => some '\r'
  | 't' => some '\t'
  | _ => none

/-- A string from behind its opening quote. Control characters have to be escaped. -/
def string? : Text → Option (List Piece × Text)
  | [] => none
  | '"' :: t => some ([], t)
  | '\\' :: 'u' :: a :: b :: c :: d :: t => do
    let n ← unit? a b c d
    let (pieces, rest) ← string? t
    return (.unit n :: pieces, rest)
  | '\\' :: c :: t => do
    let c ← shortEscape? c
    let (pieces, rest) ← string? t
    return (.char c :: pieces, rest)
  | c :: t =>
    if c.toNat < 0x20 || c == '\\' then none
    else (string? t).map fun (pieces, rest) => (.char c :: pieces, rest)

/-- Splits off one or more digits. -/
def digits? (t : Text) : Option (Text × Text) :=
  let digits := t.takeWhile Char.isDigit
  if digits.isEmpty then none else some (digits, t.dropWhile Char.isDigit)

/-- A number. A zero at its start may not be followed by a digit. -/
def number? (t : Text) : Option (Number × Text) := do
  let (negative, t) := match t with
    | '-' :: t => (true, t)
    | t => (false, t)
  let (whole, t) ← digits? t
  if whole.head? == some '0' && 1 < whole.length then none
  let (fraction, t) ← match t with
    | '.' :: t => (digits? t).map fun (d, t) => (some d, t)
    | t => some (none, t)
  let (exponent, t) ← match t with
    | c :: t =>
      if c == 'e' || c == 'E' then
        let (down, t) := match t with
          | '-' :: t => (true, t)
          | '+' :: t => (false, t)
          | t => (false, t)
        (digits? t).map fun (d, t) => (some (down, d), t)
      else some (none, c :: t)
    | [] => some (none, [])
  return (⟨negative, whole, fraction, exponent⟩, t)

mutual

/-- A value, with blanks before it. -/
def value? : Nat → Text → Option (Written × Text)
  | 0, _ => none
  | n + 1, t =>
    match skipBlank t with
    | 'n' :: 'u' :: 'l' :: 'l' :: t => some (.null, t)
    | 't' :: 'r' :: 'u' :: 'e' :: t => some (.bool true, t)
    | 'f' :: 'a' :: 'l' :: 's' :: 'e' :: t => some (.bool false, t)
    | '"' :: t => (string? t).map fun (pieces, t) => (.str pieces, t)
    | '[' :: t =>
      match skipBlank t with
      | ']' :: t => some (.arr [], t)
      | t => (items? n t).map fun (items, t) => (.arr items, t)
    | '{' :: t =>
      match skipBlank t with
      | '}' :: t => some (.obj [], t)
      | t => (members? n t).map fun (members, t) => (.obj members, t)
    | t => (number? t).map fun (number, t) => (.number number, t)

/-- One or more items with commas between them, and the closing bracket. -/
def items? : Nat → Text → Option (List Written × Text)
  | 0, _ => none
  | n + 1, t =>
    match value? n t with
    | none => none
    | some (item, t) =>
      match skipBlank t with
      | ',' :: t => (items? n t).map fun (items, t) => (item :: items, t)
      | ']' :: t => some ([item], t)
      | _ => none

/-- One or more members with commas between them, and the closing brace. -/
def members? : Nat → Text → Option (List (List Piece × Written) × Text)
  | 0, _ => none
  | n + 1, t =>
    match skipBlank t with
    | '"' :: t =>
      match string? t with
      | none => none
      | some (key, t) =>
        match skipBlank t with
        | ':' :: t =>
          match value? n t with
          | none => none
          | some (item, t) =>
            match skipBlank t with
            | ',' :: t => (members? n t).map fun (members, t) => ((key, item) :: members, t)
            | '}' :: t => some ([(key, item)], t)
            | _ => none
        | _ => none
    | _ => none

end

end Reader

/-- A document as written: one value with nothing but blanks around it. -/
def Written.ofText? (t : Text) : Option Written :=
  match Reader.value? (2 * t.length + 2) t with
  | some (written, rest) => if (Reader.skipBlank rest).isEmpty then some written else none
  | none => none

/-- The value of a document. -/
def ofText? (t : Text) : Option Json := do
  (← Written.ofText? t).value? nestingLimit

end Stencil.Json
