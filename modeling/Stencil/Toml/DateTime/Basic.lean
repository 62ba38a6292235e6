import Stencil.Text.Basic

/-!
# Dates and times

A date-time is a date, a time of day, or both, and with both possibly an offset from universal time.
It is written in one form whatever form it was read in: a capital letter between date and time, and
a fraction of a second without zeros at its end. Beyond nanoseconds a fraction is cut off.
-/

namespace Stencil.Toml

/-- A day of the calendar. -/
structure Date where
  /-- The year. -/
  year : Nat
  /-- The month, from one on. -/
  month : Nat
  /-- The day of the month, from one on. -/
  day : Nat
deriving DecidableEq, Repr

/-- A time of day. -/
structure Time where
  /-- The hour. -/
  hour : Nat
  /-- The minute. -/
  minute : Nat
  /-- The second, which may be sixty. -/
  second : Nat
  /-- The billionths of a second. -/
  nanosecond : Nat
deriving DecidableEq, Repr

/-- An offset from universal time. -/
inductive Offset where
  /-- Universal time itself. -/
  | universal
  /-- Minutes before or after universal time. -/
  | minutes (n : Int)
deriving DecidableEq, Repr

/-- A date, a time, or both. -/
structure DateTime where
  /-- The date. -/
  date? : Option Date
  /-- The time. -/
  time? : Option Time
  /-- The offset. -/
  offset? : Option Offset
deriving DecidableEq, Repr

/-- A number with zeros before it up to a width. -/
def padded (width n : Nat) : Text :=
  let digits := Text.ofNat n
  List.replicate (width - digits.length) '0' ++ digits

namespace Date

/-- The number of days of a month. -/
def daysIn (year month : Nat) : Nat :=
  let leap := year % 4 == 0 && (year % 100 != 0 || year % 400 == 0)
  if month = 2 then if leap then 29 else 28
  else if [4, 6, 9, 11].contains month then 30
  else 31

/-- The date as text. -/
def text (d : Date) : Text :=
  padded 4 d.year ++ '-' :: padded 2 d.month ++ '-' :: padded 2 d.day

end Date

/-- The time as text. -/
def Time.text (t : Time) : Text :=
  let whole := padded 2 t.hour ++ ':' :: padded 2 t.minute ++ ':' :: padded 2 t.second
  if t.nanosecond = 0 then whole else whole ++ '.' :: Text.dropEnd '0' (padded 9 t.nanosecond)

/-- The offset as text. -/
def Offset.text : Offset → Text
  | universal => ['Z']
  | minutes n =>
    (if n < 0 then '-' else '+') :: padded 2 (n.natAbs / 60) ++ ':' :: padded 2 (n.natAbs % 60)

/-- The date-time as text. -/
def DateTime.text (d : DateTime) : Text :=
  let date := (d.date?.map Date.text).getD []
  let time := (d.time?.map Time.text).getD []
  let mark : Text := if d.date?.isSome && d.time?.isSome then ['T'] else []
  date ++ mark ++ time ++ (d.offset?.map Offset.text).getD []

end Stencil.Toml
