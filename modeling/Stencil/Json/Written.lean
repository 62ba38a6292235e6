import Stencil.Json.Basic
import Stencil.Numeral.Decimal

/-!
# JSON documents as written

The grammar alone decides what is well formed: numbers are kept as digits, escapes as code units,
and the members of an object in their order, repeated keys included. What a document means is
decided when it is turned into a value: there lone halves of a surrogate pair, numbers beyond every
float, and nesting deeper than the limit are refused.
-/

namespace Stencil.Json

/-- A part of a string: a character, or the sixteen-bit unit of an escape. -/
inductive Piece where
  /-- A character that stands for itself. -/
  | char (c : Char)
  /-- The unit written by a hexadecimal escape. -/
  | unit (n : Nat)

/-- A number as its digits. -/
structure Number where
  /-- Whether there is a minus sign. -/
  negative : Bool
  /-- The digits before the point. -/
  whole : Text
  /-- The digits after the point. -/
  fraction : Option Text
  /-- The power of ten: whether it has a minus sign, and its digits. -/
  exponent : Option (Bool × Text)

/-- A document as written. -/
inductive Written where
  /-- The null value. -/
  | null
  /-- A truth value. -/
  | bool (b : Bool)
  /-- A number. -/
  | number (n : Number)
  /-- A string. -/
  | str (pieces : List Piece)
  /-- An array. -/
  | arr (items : List Written)
  /-- An object; keys may repeat. -/
  | obj (members : List (List Piece × Written))

/-- The text of a string. A leading surrogate has to be followed by an escaped trailing one, and a
trailing one may not stand alone. -/
def decode? : List Piece → Option Text
  | [] => some []
  | .char c :: rest => (decode? rest).map (c :: ·)
  | .unit n :: rest =>
    if 0xdc00 ≤ n && n ≤ 0xdfff then none
    else if 0xd800 ≤ n && n ≤ 0xdbff then
      match rest with
      | .unit m :: rest =>
        if 0xdc00 ≤ m && m ≤ 0xdfff then
          (decode? rest).map (Char.ofNat (0x10000 + (n - 0xd800) * 0x400 + (m - 0xdc00)) :: ·)
        else none
      | _ => none
    else (decode? rest).map (Char.ofNat n :: ·)

namespace Number

/-- Appends digits to a significand for as long as it fits sixty-four bits, and returns the digits
that are left over. -/
def absorb (significand : Nat) : Text → Nat × Text
  | [] => (significand, [])
  | d :: rest =>
    let next := 10 * significand + (d.toNat - '0'.toNat)
    if next < UInt64.size then absorb next rest else (significand, d :: rest)

/-- Divides by powers of ten, of which the largest is `1e308`, until the exponent is used up. The
count bounds the divisions: after three of them every significand has become zero. -/
def shrink : Nat → Float → Nat → Float
  | 0, x, _ => x
  | steps + 1, x, e =>
    if e ≤ 308 then x / Float.ofScientific 1 false e
    else if x == 0.0 then x
    else shrink steps (x / 1e308) (e - 308)

/-- A significand times a power of ten: the significand is rounded to a float, and one
multiplication or division by a rounded power of ten follows. A result beyond every float is
refused. -/
def assemble (significand : Nat) (exponent : Int) : Option Float :=
  let x := Float.ofNat significand
  if exponent < 0 then some (shrink 4 x exponent.natAbs)
  else if exponent ≤ 308 then
    let y := x * Float.ofScientific 1 false exponent.natAbs
    if y.isInf then none else some y
  else if x == 0.0 then some x
  else none

/-- The size of a number with a fraction, an exponent, or more digits than sixty-four bits hold.
Digits that do not fit the significand only move the point. -/
def size? (n : Number) : Option Float :=
  let (significand, excess) := absorb 0 n.whole
  let (significand, shift) := match n.fraction with
    | none => (significand, Int.ofNat excess.length)
    | some fraction =>
      let (s, left) := absorb significand fraction
      (s, Int.ofNat excess.length - Int.ofNat (fraction.length - left.length))
  match n.exponent with
  | none => assemble significand shift
  | some (down, digits) =>
    let e := natOfDigits digits
    if 0x80000000 ≤ e then if significand = 0 || down then some 0.0 else none
    else assemble significand (if down then shift - e else shift + e)

/-- The value of a number. Without fraction and exponent it is a whole number if it fits sixty-four
bits, with sign if it has one; zero with a minus sign is a float. -/
def value? (n : Number) : Option Json :=
  let asFloat := n.size?.map fun x => Json.float (if n.negative then -x else x)
  match n.fraction, n.exponent with
  | none, none =>
    let m := natOfDigits n.whole
    if n.negative then
      if 0 < m && m ≤ 0x8000000000000000 then some (.int (-Int.ofNat m)) else asFloat
    else if m < UInt64.size then some (.int (Int.ofNat m)) else asFloat
  | _, _ => asFloat

end Number

namespace Written

mutual

/-- The value of a document in which arrays and objects are nested at most `room` deep. -/
def value? (room : Nat) : Written → Option Json
  | null => some .null
  | bool b => some (.bool b)
  | number n => n.value?
  | str pieces => (decode? pieces).map .str
  | arr items => if room = 0 then none else (values? (room - 1) items).map .arr
  | obj members =>
    if room = 0 then none
    else (entries? (room - 1) members).map fun l => .obj (Entries.ofList l)

/-- The values of the items of an array. -/
def values? (room : Nat) : List Written → Option (List Json)
  | [] => some []
  | item :: rest => do return (← value? room item) :: (← values? room rest)

/-- The keys and values of the members of an object, in their order. -/
def entries? (room : Nat) : List (List Piece × Written) → Option (List (Text × Json))
  | [] => some []
  | (key, item) :: rest => do
    return (← decode? key, ← value? room item) :: (← entries? room rest)

end

end Written

/-- How deep arrays and objects may be nested. -/
def nestingLimit : Nat := 127

end Stencil.Json
