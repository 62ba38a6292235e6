import Stencil.Text.Numeric
import Stencil.Value.Basic

/-!
# Tokens of a condition

A condition is cut into tokens from left to right: quoted texts, parentheses, words and runs of
operator characters, with blanks between them dropped. Words and runs are as long as they can be. A
word is a keyword, a number or, failing both, an identifier; a run is one operator or an operator
followed by negations.
-/

namespace Stencil

/-- An operator that compares two values. -/
inductive Comparison where
  /-- Equal in value. -/
  | eq
  /-- Equal in value and kind. -/
  | strictEq
  /-- Not equal in value. -/
  | ne
  /-- Not equal in value and kind. -/
  | strictNe
  /-- Before in order. -/
  | lt
  /-- After in order. -/
  | gt
  /-- Not after in order. -/
  | le
  /-- Not before in order. -/
  | ge
deriving DecidableEq, Repr

/-- An operator of a condition. -/
inductive Operator where
  /-- A comparison. -/
  | compare (c : Comparison)
  /-- Holds when both sides do. -/
  | and
  /-- Holds when a side does. -/
  | or
  /-- Holds when its operand does not. -/
  | not
deriving DecidableEq, Repr

namespace Operator

/-- The operator that a run of operator characters spells. -/
def ofSymbol? (symbol : Text) : Option Operator :=
  match String.ofList symbol with
  | "==" => some (compare .eq)
  | "===" => some (compare .strictEq)
  | "!=" => some (compare .ne)
  | "<>" => some (compare .ne)
  | "!==" => some (compare .strictNe)
  | "<" => some (compare .lt)
  | ">" => some (compare .gt)
  | "<=" => some (compare .le)
  | ">=" => some (compare .ge)
  | "&&" => some and
  | "||" => some or
  | "!" => some not
  | _ => none

/-- The name of the operator in an error. -/
def name : Operator → Text
  | compare .eq => "Eq".toList
  | compare .strictEq => "StrictEq".toList
  | compare .ne => "Ne".toList
  | compare .strictNe => "StrictNe".toList
  | compare .lt => "Lt".toList
  | compare .gt => "Gt".toList
  | compare .le => "Le".toList
  | compare .ge => "Ge".toList
  | and => "And".toList
  | or => "Or".toList
  | not => "Not".toList

end Operator

namespace Condition

/-- Why a condition has no value. -/
inductive Error where
  /-- A quoted text is not closed; the byte at which it starts. -/
  | unterminatedQuote (offset : Nat)
  /-- A token, or a character that starts none, stands where it cannot. -/
  | unexpectedToken (token : Text)
  /-- The condition ends where an operand or a parenthesis is due. -/
  | unexpectedEnd
  /-- A run of operator characters spells no operator. -/
  | unknownOperator (symbol : Text)
deriving DecidableEq, Repr

/-- The words for an error. -/
def Error.message : Error → Text
  | unterminatedQuote offset =>
    "unterminated string literal starting at byte ".toList ++ Text.ofNat offset
  | unexpectedToken token => "unexpected token '".toList ++ token ++ ['\'']
  | unexpectedEnd => "unexpected end of condition".toList
  | unknownOperator symbol => "unknown operator '".toList ++ symbol ++ ['\'']

/-- A token of a condition. -/
inductive Token where
  /-- A quoted text, a number, or a word that names a value. -/
  | literal (v : Value)
  /-- A dotted path into the data. -/
  | identifier (path : Text)
  /-- An operator. -/
  | op (o : Operator)
  /-- An opening parenthesis. -/
  | opening
  /-- A closing parenthesis. -/
  | closing

/-- A token as an error shows it. -/
def Token.text : Token → Text
  | literal v => v.dump
  | identifier path => path
  | op o => o.name
  | opening => ['(']
  | closing => [')']

/-- Whether the character belongs to words. -/
def isWordPart (c : Char) : Bool :=
  isAlphanumeric c || c == '_' || c == '.' || c == '-'

/-- Whether the character belongs to operators. -/
def isOperatorPart (c : Char) : Bool :=
  c == '<' || c == '>' || c == '!' || c == '=' || c == '|' || c == '&'

/-- Whether the character opens and closes quoted texts. -/
def isQuote (c : Char) : Bool := c == '"' || c == '\''

/-- The token a word stands for. Keywords are recognised in any case; what reads as a number is one,
the words for infinity and for no number included. -/
def classify (word : Text) : Token :=
  match String.ofList (Text.toLower word) with
  | "and" => .op .and
  | "or" => .op .or
  | "not" => .op .not
  | "true" => .literal (.bool true)
  | "false" => .literal (.bool false)
  | "null" => .literal .null
  | "none" => .literal .null
  | _ =>
    match Numeral.int64? word with
    | some n => .literal (.int n)
    | none =>
      match Numeral.float? word with
      | some x => .literal (.float x)
      | none => .identifier word

/-- The tokens of a run of operator characters. What is no operator by itself is one followed by
exclamation marks, each a negation. -/
def operators (run : Text) : Except Error (List Token) :=
  match Operator.ofSymbol? run with
  | some o => .ok [.op o]
  | none =>
    let head := Text.dropEnd '!' run
    let negations := List.replicate (run.length - head.length) (Token.op .not)
    if negations.isEmpty then .error (.unknownOperator run)
    else if head.isEmpty then .ok negations
    else
      match Operator.ofSymbol? head with
      | some o => .ok (.op o :: negations)
      | none => .error (.unknownOperator head)

theorem length_dropWhile_le (p : Char → Bool) (t : Text) : (t.dropWhile p).length ≤ t.length := by
  induction t with
  | nil => simp
  | cons c cs ih =>
    simp only [List.dropWhile_cons]
    split
    · exact Nat.le_succ_of_le ih
    · exact Nat.le_refl _

/-- The tokens of a text that begins at the byte `offset` of the condition. -/
def tokensFrom (offset : Nat) : Text → Except Error (List Token)
  | [] => .ok []
  | c :: cs =>
    if isBlank c then tokensFrom (offset + c.utf8Size) cs
    else if isQuote c then
      let body := cs.takeWhile (· != c)
      match h : cs.dropWhile (· != c) with
      | [] => .error (.unterminatedQuote offset)
      | _ :: rest => do
        have : rest.length < cs.length := by
          have := length_dropWhile_le (· != c) cs
          rw [h, List.length_cons] at this
          omega
        let tokens ← tokensFrom (offset + Text.utf8Size body + 2) rest
        return .literal (.str body) :: tokens
    else if c = '(' then do return .opening :: (← tokensFrom (offset + 1) cs)
    else if c = ')' then do return .closing :: (← tokensFrom (offset + 1) cs)
    else if isOperatorPart c then do
      let run := c :: cs.takeWhile isOperatorPart
      have := length_dropWhile_le isOperatorPart cs
      let tokens ← operators run
      return tokens ++ (← tokensFrom (offset + run.length) (cs.dropWhile isOperatorPart))
    else if isWordPart c then do
      let word := c :: cs.takeWhile isWordPart
      have := length_dropWhile_le isWordPart cs
      return classify word ::
        (← tokensFrom (offset + Text.utf8Size word) (cs.dropWhile isWordPart))
    else .error (.unexpectedToken [c])
termination_by t => t.length

/-- The tokens of a condition. -/
def tokens (condition : Text) : Except Error (List Token) := tokensFrom 0 condition

end Condition

end Stencil
