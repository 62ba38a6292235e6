import Stencil.Numeral.Decimal
import Stencil.Toml.DateTime.Basic

/-!
# Reading dates and times

In a document a date-time stands without quotes, and what follows it is none of its business. The
text of a string can be read as a date-time too, by the same rules, and then all of it has to be
one.
-/

namespace Stencil.Toml

/-- Exactly `count` digits that stand for a number between two bounds. -/
def field? (count low high : Nat) (t : Text) : Option (Nat × Text) :=
  let digits := t.take count
  let n := natOfDigits digits
  if digits.length = count && digits.all Char.isDigit && low ≤ n && n ≤ high then
    some (n, t.drop count)
  else none

/-- What follows a character. -/
def mark? (c : Char) (t : Text) : Option Text := Text.after? [c] t

/-- A date. -/
def date? (t : Text) : Option (Date × Text) := do
  let (year, t) ← field? 4 0 9999 t
  let (month, t) ← field? 2 1 12 (← mark? '-' t)
  let (day, t) ← field? 2 1 (Date.daysIn year month) (← mark? '-' t)
  return ({ year, month, day }, t)

/-- The billionths that the digits of a fraction stand for. -/
def nanoseconds (digits : Text) : Nat :=
  natOfDigits ((digits ++ List.replicate 9 '0').take 9)

/-- A time of day. -/
def time? (t : Text) : Option (Time × Text) := do
  let (hour, t) ← field? 2 0 23 t
  let (minute, t) ← field? 2 0 59 (← mark? ':' t)
  let (second, t) ← field? 2 0 60 (← mark? ':' t)
  match t with
  | '.' :: t =>
    let digits := t.takeWhile Char.isDigit
    if digits.isEmpty then none
    return ({ hour, minute, second, nanosecond := nanoseconds digits }, t.dropWhile Char.isDigit)
  | t => return ({ hour, minute, second, nanosecond := 0 }, t)

/-- An offset, or nothing. -/
def offset (t : Text) : Option (Option Offset × Text) :=
  match t with
  | 'Z' :: t => some (some .universal, t)
  | 'z' :: t => some (some .universal, t)
  | c :: t =>
    if c == '+' || c == '-' then do
      let (hour, t) ← field? 2 0 23 t
      let (minute, t) ← field? 2 0 59 (← mark? ':' t)
      let n := Int.ofNat (60 * hour + minute)
      return (some (.minutes (if c = '-' then -n else n)), t)
    else some (none, c :: t)
  | [] => some (none, [])

/-- Whether the character may stand between date and time. -/
def joinsTime (c : Char) : Bool := c == 'T' || c == 't' || c == ' '

/-- A date, a time, or a date and a time. A date after which no time can be read stands alone. -/
def dateTime? (t : Text) : Option (DateTime × Text) :=
  match date? t with
  | none => (time? t).map fun (time, t) => (⟨none, some time, none⟩, t)
  | some (date, t) =>
    let joined := match t with
      | c :: t => if joinsTime c then time? t else none
      | [] => none
    match joined with
    | none => some (⟨some date, none, none⟩, t)
    | some (time, t) =>
      (offset t).map fun (offset?, t) => (⟨some date, some time, offset?⟩, t)

/-- The date-time that a whole text says. -/
def dateTimeOfText? (t : Text) : Option DateTime :=
  match dateTime? t with
  | some (d, []) => some d
  | _ => none

end Stencil.Toml
