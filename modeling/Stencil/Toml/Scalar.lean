import Stencil.Json.Reader
import Stencil.Numeral.Reading
import Stencil.Toml.Value

/-!
# Scalars of TOML

Strings of four kinds, whole numbers in four bases, floats, truth values, and date-times. Each
reader takes a text and returns what stands at its start together with the rest. Numbers may have
underscores between digits.
-/

namespace Stencil.Toml

/-- Whether the character may stand inside a line: all but control characters other than tabs. -/
def isPrintable (c : Char) : Bool := c == '\t' || (0x20 ≤ c.toNat && c.toNat != 0x7f)

/-- The text without the spaces and tabs at its start. -/
def skipSpaces (t : Text) : Text := t.dropWhile fun c => c == ' ' || c == '\t'

/-- What follows a line end. -/
def lineEnd? : Text → Option Text
  | '\n' :: t => some t
  | '\r' :: '\n' :: t => some t
  | _ => none

/-- What follows a line end, or the text itself if there is none. -/
def skipLineEnd (t : Text) : Text := (lineEnd? t).getD t

/-! ## Strings -/

/-- The value of hexadecimal digits. -/
def hexNumber? (digits : Text) : Option Nat :=
  digits.foldlM (fun n c => (Json.Reader.hexValue? c).map (16 * n + ·)) 0

/-- The character with a number; surrogates are none. -/
def character? (n : Nat) : Option Char :=
  if n.isValidChar then some (Char.ofNat n) else none

/-- An escape from behind its backslash. -/
def escape? : Text → Option (Char × Text)
  | 'b' :: t => some ('\x08', t)
  | 't' :: t => some ('\t', t)
  | 'n' :: t => some ('\n', t)
  | 'f' :: t => some ('\x0c', t)
  | 'r' :: t => some ('\r', t)
  | '"' :: t => some ('"', t)
  | '\\' :: t => some ('\\', t)
  | 'u' :: a :: b :: c :: d :: t => do
    return (← character? (← hexNumber? [a, b, c, d]), t)
  | 'U' :: a :: b :: c :: d :: e :: f :: g :: h :: t => do
    return (← character? (← hexNumber? [a, b, c, d, e, f, g, h]), t)
  | _ => none

/-- Spaces, a line end, and all blanks and line ends after it. -/
def foldedLines? (t : Text) : Option Text :=
  (lineEnd? (skipSpaces t)).map fun t => go t.length t
where
  /-- Drops blanks and line ends; the count bounds the steps. -/
  go : Nat → Text → Text
    | 0, t => t
    | n + 1, t =>
      match lineEnd? (skipSpaces t) with
      | some t => go n t
      | none => skipSpaces t

/-- The quotes with which a string over several lines ends: three of them, and up to two before that
are part of the string. -/
def closing? (quote : Char) (t : Text) : Option (Text × Text) :=
  let run := t.takeWhile (· == quote)
  if run.length < 3 then none
  else
    let extra := min 2 (run.length - 3)
    some (List.replicate extra quote, t.drop (extra + 3))

/-- Whether strings end at the line end, and whether they know escapes. -/
structure Style where
  /-- The quote around the string. -/
  quote : Char
  /-- Whether the string may hold line ends, and quotes if there are fewer than three. -/
  long : Bool
deriving DecidableEq, Repr

/-- The rest of a string of some style. The count bounds the steps; the length of the text is
enough. -/
def stringFrom? (style : Style) : Nat → Text → Option (Text × Text)
  | 0, _ => none
  | _ + 1, [] => none
  | n + 1, c :: cs =>
    let more := fun (head : Text) (t : Text) =>
      (stringFrom? style n t).map fun (s, rest) => (head ++ s, rest)
    if c = style.quote then
      if style.long then
        match closing? style.quote (c :: cs) with
        | some closing => some closing
        | none => more [c] cs
      else some ([], cs)
    else if c = '\\' && style.quote = '"' then
      match (if style.long then foldedLines? cs else none) with
      | some t => more [] t
      | none => (escape? cs).bind fun (c, t) => more [c] t
    else if isPrintable c then more [c] cs
    else
      match (if style.long then lineEnd? (c :: cs) else none) with
      | some t => more ['\n'] t
      | none => none

/-- A string that does not go over line ends, from its quote on. -/
def shortString? : Text → Option (Text × Text)
  | [] => none
  | c :: t =>
    if c == '"' || c == '\'' then stringFrom? { quote := c, long := false } (t.length + 1) t
    else none

/-- A string, from its quote on. A line end right behind three quotes is dropped. -/
def string? (t : Text) : Option (Text × Text) :=
  match t with
  | a :: b :: c :: rest =>
    if a = b && b = c && (a = '"' || a = '\'') then
      stringFrom? { quote := a, long := true } (rest.length + 1) (skipLineEnd rest)
    else shortString? t
  | _ => shortString? t

/-! ## Numbers -/

/-- A digit, and then digits of which each may have an underscore before it. -/
def digits? (isDigit : Char → Bool) : Text → Option (Text × Text)
  | [] => none
  | c :: t => if isDigit c then some (c :: (go t).1, (go t).2) else none
where
  /-- The further digits without the underscores, and the rest. -/
  go : Text → Text × Text
    | '_' :: c :: t => if isDigit c then (c :: (go t).1, (go t).2) else ([], '_' :: c :: t)
    | c :: t => if isDigit c then (c :: (go t).1, (go t).2) else ([], c :: t)
    | [] => ([], [])

/-- A sign, or nothing. -/
def sign : Text → Text × Text
  | '+' :: t => (['+'], t)
  | '-' :: t => (['-'], t)
  | t => ([], t)

/-- Decimal digits of which the first is no zero unless it is the only one. -/
def whole? (t : Text) : Option (Text × Text) :=
  match t with
  | '0' :: rest => some (['0'], rest)
  | t => digits? Char.isDigit t

/-- A whole number. One in another base than ten has no sign. -/
def integer? (t : Text) : Option (Int × Text) :=
  let based := fun (base : Nat) (t : Text) => do
    let (digits, rest) ← digits? (fun c => (Json.Reader.hexValue? c).any (· < base)) t
    let n := digits.foldl (fun n c => base * n + (Json.Reader.hexValue? c).getD 0) 0
    if Numeral.isInt64 n then some (Int.ofNat n, rest) else none
  match t with
  | '0' :: 'x' :: t => based 16 t
  | '0' :: 'o' :: t => based 8 t
  | '0' :: 'b' :: t => based 2 t
  | t => do
    let (sign, t) := sign t
    let (digits, rest) ← whole? t
    return (← Numeral.int64? (sign ++ digits), rest)

/-- A power of ten, or nothing. -/
def exponent : Text → Option (Text × Text)
  | c :: t =>
    if c == 'e' || c == 'E' then do
      let (sign, t) := sign t
      let (digits, rest) ← digits? Char.isDigit t
      return ('e' :: sign ++ digits, rest)
    else some ([], c :: t)
  | [] => some ([], [])

/-- A float: a whole number with a fraction, a power of ten, or both, or one of the words for what
is no finite number. A number too large for a float is refused unless it is negative. -/
def float? (t : Text) : Option (Float × Text) := do
  let (sign, t) := sign t
  let negate := fun (x : Float) => if sign = ['-'] then -x else x
  match t with
  | 'i' :: 'n' :: 'f' :: rest => some (negate Decimal.infinity, rest)
  | 'n' :: 'a' :: 'n' :: rest => some (Decimal.notANumber, rest)
  | t =>
    let (whole, t) ← whole? t
    let (fraction, t) ← match t with
      | '.' :: t => (digits? Char.isDigit t).map fun (digits, t) => ('.' :: digits, t)
      | t => some ([], t)
    let (power, t) ← exponent t
    if fraction.isEmpty && power.isEmpty then none
    let x ← Numeral.float? (whole ++ fraction ++ power)
    if sign ≠ ['-'] && x.isInf then none else some (negate x, t)

/-! ## All scalars -/

/-- A scalar. -/
def scalar? (t : Text) : Option (Value × Text) :=
  match t with
  | '"' :: _ | '\'' :: _ => (string? t).map fun (s, t) => (.text s, t)
  | 't' :: 'r' :: 'u' :: 'e' :: t => some (.truth true, t)
  | 'f' :: 'a' :: 'l' :: 's' :: 'e' :: t => some (.truth false, t)
  | t =>
    match dateTime? t with
    | some (d, t) => some (.dateTime d, t)
    | none =>
      match float? t with
      | some (x, t) => some (.float x, t)
      | none => (integer? t).map fun (n, t) => (.integer n, t)

end Stencil.Toml
