import Stencil.Numeral.Decimal

/-!
# Reading numerals

Whole numbers are read with an optional sign and ASCII digits only, and refused when they do not fit
the range asked for. Floats have an optional sign, digits with an optional point and an optional
power of ten, or are one of the words for infinity and for no number, in any case.
-/

namespace Stencil.Numeral

/-- Whether the text is made of one or more ASCII digits. -/
def isDigits (t : Text) : Bool := !t.isEmpty && t.all Char.isDigit

/-- Splits off a plus or minus sign; the flag says whether there was a minus sign. -/
def splitSign : Text → Bool × Text
  | '-' :: t => (true, t)
  | '+' :: t => (false, t)
  | t => (false, t)

/-- Whether a whole number fits sixty-four bits with sign. -/
def isInt64 (n : Int) : Bool := -0x8000000000000000 ≤ n && n < 0x8000000000000000

/-- A whole number of sixty-four bits with sign. -/
def int64? (t : Text) : Option Int :=
  let (negative, digits) := splitSign t
  if isDigits digits then
    let n : Int := if negative then -(natOfDigits digits : Int) else natOfDigits digits
    if isInt64 n then some n else none
  else none

/-- A whole number below `bound`; a plus sign is allowed and a minus sign is not. -/
def natBelow? (bound : Nat) (t : Text) : Option Nat :=
  let digits := match t with
    | '+' :: rest => rest
    | t => t
  if isDigits digits && natOfDigits digits < bound then some (natOfDigits digits) else none

/-- A position in a list: a whole number of sixty-four bits without sign. -/
def index? (t : Text) : Option Nat := natBelow? UInt64.size t

/-- A power of ten after the letter `e`. -/
def exponent? (t : Text) : Option Int :=
  let (negative, digits) := splitSign t
  if isDigits digits then
    some (if negative then -(natOfDigits digits : Int) else natOfDigits digits)
  else none

/-- Digits with an optional point, which needs a digit on one side, and an optional power of ten. -/
def unsigned? (negative : Bool) (t : Text) : Option Decimal :=
  let whole := t.takeWhile Char.isDigit
  let rest := t.dropWhile Char.isDigit
  let (fraction, rest) := match rest with
    | '.' :: rest => (rest.takeWhile Char.isDigit, rest.dropWhile Char.isDigit)
    | rest => ([], rest)
  if (whole ++ fraction).isEmpty then none
  else
    let mantissa := natOfDigits (whole ++ fraction)
    let shift : Int := -(fraction.length : Int)
    match rest with
    | [] => some ⟨negative, mantissa, shift⟩
    | c :: rest =>
      if c == 'e' || c == 'E' then
        (exponent? rest).map fun e => ⟨negative, mantissa, shift + e⟩
      else none

/-- A float, rounded to the nearest. -/
def float? (t : Text) : Option Float :=
  let (negative, body) := splitSign t
  let word := Text.toLower body
  if word == "inf".toList || word == "infinity".toList then
    some (if negative then -Decimal.infinity else Decimal.infinity)
  else if word == "nan".toList then some Decimal.notANumber
  else (unsigned? negative body).map Decimal.toFloat

end Stencil.Numeral
