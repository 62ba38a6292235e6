/-!
# Text

Templates, data and settings are text: lists of characters. A list is what the scanners recurse on
and what the lemmas speak about; strings occur only where text enters or leaves the program.
-/

namespace Stencil

/-- Text, character by character. -/
abbrev Text := List Char

namespace Text

/-- The number of bytes the text takes in UTF-8. -/
def utf8Size : Text → Nat
  | [] => 0
  | c :: cs => c.utf8Size + utf8Size cs

/-- What follows `head` in a text that starts with it. -/
def after? : (head : Text) → Text → Option Text
  | [], t => some t
  | _ :: _, [] => none
  | h :: hs, c :: cs => if h = c then after? hs cs else none

/-- What stands before `tail` in a text that ends with it. -/
def upTo? (tail t : Text) : Option Text :=
  (after? tail.reverse t.reverse).map List.reverse

/-- Whether the text starts with `head`. -/
def startsWith (head t : Text) : Bool :=
  (after? head t).isSome

/-- Whether `needle` occurs somewhere in the text. -/
def mentions (needle : Text) : Text → Bool
  | [] => needle.isEmpty
  | c :: cs => startsWith needle (c :: cs) || mentions needle cs

/-- The stretches between the occurrences of `sep`; always one more than there are occurrences. -/
def splitOn (sep : Char) : Text → List Text
  | [] => [[]]
  | c :: cs =>
    if c = sep then [] :: splitOn sep cs
    else
      match splitOn sep cs with
      | [] => [[c]]
      | w :: ws => (c :: w) :: ws

/-- The text before and after the first occurrence of `sep`. -/
def splitOnce? (sep : Char) : Text → Option (Text × Text)
  | [] => none
  | c :: cs =>
    if c = sep then some ([], cs)
    else (splitOnce? sep cs).map fun (before, rest) => (c :: before, rest)

/-- The texts one after the other, with `sep` between neighbours. -/
def join (sep : Text) : List Text → Text
  | [] => []
  | [t] => t
  | t :: u :: ts => t ++ sep ++ join sep (u :: ts)

/-- Whether the first text comes before the second in the order of code points, which is also the
order of their UTF-8 bytes. -/
def before : Text → Text → Bool
  | _, [] => false
  | [], _ :: _ => true
  | a :: as, b :: bs => a < b || (a == b && before as bs)

/-- The decimal digits of a number. -/
def ofNat (n : Nat) : Text := Nat.toDigits 10 n

/-- A number in decimal, with a minus sign if it is negative. -/
def ofInt (i : Int) : Text :=
  if i < 0 then '-' :: ofNat i.natAbs else ofNat i.natAbs

/-- The text with its ASCII letters in lower case. -/
def toLower (t : Text) : Text := t.map Char.toLower

/-- The text without the characters `c` at its start. -/
def dropStart (c : Char) (t : Text) : Text := t.dropWhile (· == c)

/-- The text without the characters `c` at its end. -/
def dropEnd (c : Char) (t : Text) : Text := (dropStart c t.reverse).reverse

theorem append_of_after? {head t rest : Text} (h : after? head t = some rest) :
    head ++ rest = t := by
  fun_induction after? head t with
  | case1 t => simpa using h.symm
  | case2 => simp at h
  | case3 h₀ hs cs ih => simp [ih h]
  | case4 => simp at h

@[simp] theorem after?_append (head rest : Text) : after? head (head ++ rest) = some rest := by
  induction head with
  | nil => rfl
  | cons c cs ih => simp [after?, ih]

@[simp] theorem utf8Size_append (s t : Text) : utf8Size (s ++ t) = utf8Size s + utf8Size t := by
  induction s with
  | nil => simp [utf8Size]
  | cons c cs ih => simp [utf8Size, ih]; omega

theorem splitOn_ne_nil (sep : Char) (t : Text) : splitOn sep t ≠ [] := by
  cases t with
  | nil => simp [splitOn]
  | cons c cs =>
    simp only [splitOn]
    split
    · simp
    · split <;> simp

end Text

end Stencil
