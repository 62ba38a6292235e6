import Stencil.Numeral.Decimal

/-!
# Shortest decimals

A float stands for every real number that rounds to it. Among the decimals in that interval the
shortest is written, and among the shortest the nearest. The digits are found in exact arithmetic:
for one digit, two digits and so on up to seventeen, the two neighbours of the value on the grid of
that many digits are tried.
-/

namespace Stencil

namespace Shortest

/-- A positive float and the interval that rounds to it, in units of `2 ^ exponent`. -/
structure Interval where
  /-- The lower end. -/
  low : Nat
  /-- The value itself. -/
  value : Nat
  /-- The upper end. -/
  high : Nat
  /-- The power of two of the unit. -/
  exponent : Int
  /-- Whether the ends themselves round to the value. -/
  closed : Bool

/-- What the leading bit of a mantissa is worth: two to the power of fifty-two. -/
def leadingBit : Nat := 0x10000000000000

/-- The interval of a finite positive float. Below a power of two the neighbour is nearer by half.
-/
def interval (x : Float) : Interval :=
  let bits : Nat := x.toBits.toNat
  let field : Nat := bits / leadingBit % 0x800
  let fraction : Nat := bits % leadingBit
  let mantissa : Nat := if field = 0 then fraction else fraction + leadingBit
  let exponent : Int := if field = 0 then -1074 else (field : Int) - 1075
  { low := if fraction = 0 ∧ 1 < field then 4 * mantissa - 1 else 4 * mantissa - 2
    value := 4 * mantissa
    high := 4 * mantissa + 2
    exponent := exponent - 2
    closed := mantissa % 2 = 0 }

/-- The factor and the divisor that turn units of the interval into units of `10 ^ k`. -/
def scale (i : Interval) (k : Int) : Nat × Nat :=
  (Nat.pow 2 i.exponent.toNat * Nat.pow 10 (-k).toNat,
    Nat.pow 2 (-i.exponent).toNat * Nat.pow 10 k.toNat)

/-- The power of ten of the leading digit. The value exceeds `10 ^ (-330)`. -/
def leading (i : Interval) : Int :=
  let (factor, divisor) := scale i (-330)
  (digitCount (i.value * factor / divisor) : Int) - 331

/-- The number on the grid of `10 ^ k` that is written for the value: one of its two neighbours
there, if one lies in the interval. Of two the nearer is taken, and `tieUp` decides a tie. -/
def onGrid? (i : Interval) (tieUp : Nat → Bool) (k : Int) : Option Nat :=
  let (factor, divisor) := scale i k
  let inside := fun n : Nat =>
    let place := n * divisor
    if i.closed then i.low * factor ≤ place && place ≤ i.high * factor
    else i.low * factor < place && place < i.high * factor
  let below := i.value * factor / divisor
  let twiceRest := 2 * (i.value * factor - below * divisor)
  match inside below, inside (below + 1) with
  | false, false => none
  | true, false => some below
  | false, true => some (below + 1)
  | true, true =>
    if twiceRest < divisor then some below
    else if divisor < twiceRest then some (below + 1)
    else if tieUp below then some (below + 1) else some below

/-- Tries grids of ever more digits; the count says how many more may be tried. -/
def search (i : Interval) (tieUp : Nat → Bool) : Nat → Int → Nat × Int
  | 0, k => (i.value * (scale i k).1 / (scale i k).2, k)
  | tries + 1, k =>
    match onGrid? i tieUp k with
    | some n => (n, k)
    | none => search i tieUp tries (k - 1)

/-- Drops the zeros at the end of the digits. -/
def stripZeros : Text → Int → Text × Int
  | [], k => ([], k)
  | '0' :: rest, k => stripZeros rest (k + 1)
  | reversed, k => (reversed.reverse, k)

/-- The shortest digits of a finite positive float, without zeros at the end, and the power of ten
of the last digit. -/
def digits (tieUp : Nat → Bool) (x : Float) : Text × Int :=
  let i := interval x
  let (n, k) := search i tieUp 17 (leading i)
  stripZeros (Text.ofNat n).reverse k

/-- The sign of a float, which zero has too: a minus sign or nothing. -/
def sign (x : Float) : Text :=
  if x.toBits.toNat < 0x8000000000000000 then [] else ['-']

/-- The digits with the point in its place and without a power of ten. -/
def positional (digits : Text) (k : Int) : Text :=
  if 0 ≤ k then digits ++ List.replicate k.toNat '0'
  else
    let places := k.natAbs
    if places < digits.length then
      let whole := digits.length - places
      digits.take whole ++ '.' :: digits.drop whole
    else "0.".toList ++ List.replicate (places - digits.length) '0' ++ digits

end Shortest

/-- A float as a page shows it: never with a power of ten, and whole numbers without a point. A tie
between two shortest decimals goes up. -/
def Text.ofFloat (x : Float) : Text :=
  if x.isNaN then "NaN".toList
  else
    let sign := Shortest.sign x
    if x.isInf then sign ++ "inf".toList
    else if x == 0.0 then sign ++ ['0']
    else
      let (digits, k) := Shortest.digits (fun _ => true) x.abs
      sign ++ Shortest.positional digits k

end Stencil
