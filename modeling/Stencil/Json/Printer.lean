import Stencil.Json.Basic
import Stencil.Numeral.Shortest

/-!
# Writing JSON

The compact form: no blanks, keys in order, and in strings only quotes, backslashes and control
characters escaped. A float keeps a point or an exponent, so that it is read back as a float.
-/

namespace Stencil

/-- A finite float with the shortest digits that read back. The number is positional from `1e-5` up
to `1e16` and has a power of ten with its sign otherwise; a tie between two shortest decimals goes
to the even digit. -/
def Text.ofFloatExact (x : Float) : Text :=
  let sign := Shortest.sign x
  if x == 0.0 then sign ++ "0.0".toList
  else
    let (digits, k) := Shortest.digits (fun below => below % 2 == 1) x.abs
    let top : Int := (digits.length : Int) + k
    if 0 ≤ k && top ≤ 16 then sign ++ Shortest.positional digits k ++ ".0".toList
    else if -5 < top && top ≤ 16 then sign ++ Shortest.positional digits k
    else
      let point : Text := match digits with
        | d :: e :: rest => d :: '.' :: e :: rest
        | short => short
      let exponent : Text := if top ≤ 0 then ['e'] else ['e', '+']
      sign ++ point ++ exponent ++ Text.ofInt (top - 1)

namespace Json

/-- A hexadecimal digit in lower case. -/
def hexDigit (n : Nat) : Char := Nat.digitChar n

/-- A character as it stands in a string. -/
def escape (c : Char) : Text :=
  match c with
  | '"' => ['\\', '"']
  | '\\' => ['\\', '\\']
  | '\n' => ['\\', 'n']
  | '\r' => ['\\', 'r']
  | '\t' => ['\\', 't']
  | '\x08' => ['\\', 'b']
  | '\x0c' => ['\\', 'f']
  | c =>
    if c.toNat < 0x20 then
      ['\\', 'u', '0', '0', hexDigit (c.toNat / 16), hexDigit (c.toNat % 16)]
    else [c]

/-- A text between quotes. -/
def quote (s : Text) : Text := '"' :: s.flatMap escape ++ ['"']

mutual

/-- The compact form of a value. A float that is not finite has none and is written as null. -/
def compact : Json → Text
  | null => "null".toList
  | bool true => "true".toList
  | bool false => "false".toList
  | int n => Text.ofInt n
  | float x => if x.isFinite then Text.ofFloatExact x else "null".toList
  | str s => quote s
  | arr items => '[' :: compactItems items ++ [']']
  | obj entries => '{' :: compactEntries entries ++ ['}']

/-- The items of an array with commas between them. -/
def compactItems : List Json → Text
  | [] => []
  | [item] => compact item
  | item :: next :: rest => compact item ++ ',' :: compactItems (next :: rest)

/-- The entries of an object with commas between them. -/
def compactEntries : List (Text × Json) → Text
  | [] => []
  | [(key, value)] => quote key ++ ':' :: compact value
  | (key, value) :: next :: rest =>
    quote key ++ ':' :: compact value ++ ',' :: compactEntries (next :: rest)

end

end Json

end Stencil
