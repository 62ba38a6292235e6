import Stencil.Condition.Token

/-!
# Expressions of a condition

The grammar of conditions, loosest binding first: a disjunction of conjunctions of negations of
comparisons of operands. A comparison has one operator at most, so comparisons do not chain. The
parser takes as many tokens as belong to an expression and returns the rest, which is shorter than
what it was given; that is why it ends.
-/

namespace Stencil.Condition

/-- A parsed condition. Parentheses are kept, so that an expression has the tokens it was read
from. -/
inductive Expression where
  /-- A value. -/
  | literal (v : Value)
  /-- The value at a path of the data. -/
  | identifier (path : Text)
  /-- An expression between parentheses. -/
  | group (e : Expression)
  /-- A comparison of two operands. -/
  | compare (c : Comparison) (a b : Expression)
  /-- A negation. -/
  | not (e : Expression)
  /-- A conjunction. -/
  | and (a b : Expression)
  /-- A disjunction. -/
  | or (a b : Expression)

/-- An expression read from the start of a list of tokens, with the rest of them. -/
abbrev Parsed (tokens : List Token) :=
  Except Error (Expression × { rest : List Token // rest.length < tokens.length })

mutual

/-- A value, a path, or an expression between parentheses. -/
def operand : (ts : List Token) → Parsed ts
  | [] => .error .unexpectedEnd
  | .literal v :: ts => .ok (.literal v, ⟨ts, by simp⟩)
  | .identifier path :: ts => .ok (.identifier path, ⟨ts, by simp⟩)
  | .opening :: ts =>
    match disjunction ts with
    | .error e => .error e
    | .ok (inner, ⟨.closing :: rest, h⟩) => .ok (.group inner, ⟨rest, by simp at h ⊢; omega⟩)
    | .ok (_, ⟨t :: _, _⟩) => .error (.unexpectedToken t.text)
    | .ok (_, ⟨[], _⟩) => .error .unexpectedEnd
  | t :: _ => .error (.unexpectedToken t.text)
termination_by ts => 5 * ts.length

/-- An operand, or two with a comparison between them. -/
def comparison (ts : List Token) : Parsed ts :=
  match operand ts with
  | .error e => .error e
  | .ok (left, ⟨.op (.compare c) :: rest, h⟩) =>
    match operand rest with
    | .error e => .error e
    | .ok (right, ⟨rest', h'⟩) => .ok (.compare c left right, ⟨rest', by simp at h; omega⟩)
  | .ok (left, rest) => .ok (left, rest)
termination_by 5 * ts.length + 1
decreasing_by
  · omega
  · simp at h; omega

/-- A comparison, or the negation of a negation. -/
def negation (ts : List Token) : Parsed ts :=
  match ts with
  | .op .not :: rest =>
    match negation rest with
    | .error e => .error e
    | .ok (e, ⟨rest', h⟩) => .ok (.not e, ⟨rest', by simp; omega⟩)
  | ts => comparison ts
termination_by 5 * ts.length + 2

/-- Negations with conjunctions between them, grouped to the left. -/
def conjunction (ts : List Token) : Parsed ts :=
  match negation ts with
  | .error e => .error e
  | .ok (left, ⟨rest, h⟩) =>
    match andMore left rest with
    | .error e => .error e
    | .ok (e, ⟨rest', h'⟩) => .ok (e, ⟨rest', by omega⟩)
termination_by 5 * ts.length + 3

/-- Adds the conjuncts that follow to `left`. -/
def andMore (left : Expression) (ts : List Token) :
    Except Error (Expression × { rest : List Token // rest.length ≤ ts.length }) :=
  match ts with
  | .op .and :: rest =>
    match negation rest with
    | .error e => .error e
    | .ok (right, ⟨rest', h⟩) =>
      match andMore (.and left right) rest' with
      | .error e => .error e
      | .ok (e, ⟨rest'', h'⟩) => .ok (e, ⟨rest'', by simp; omega⟩)
  | ts => .ok (left, ⟨ts, Nat.le_refl _⟩)
termination_by 5 * ts.length

/-- Conjunctions with disjunctions between them, grouped to the left. -/
def disjunction (ts : List Token) : Parsed ts :=
  match conjunction ts with
  | .error e => .error e
  | .ok (left, ⟨rest, h⟩) =>
    match orMore left rest with
    | .error e => .error e
    | .ok (e, ⟨rest', h'⟩) => .ok (e, ⟨rest', by omega⟩)
termination_by 5 * ts.length + 4

/-- Adds the disjuncts that follow to `left`. -/
def orMore (left : Expression) (ts : List Token) :
    Except Error (Expression × { rest : List Token // rest.length ≤ ts.length }) :=
  match ts with
  | .op .or :: rest =>
    match conjunction rest with
    | .error e => .error e
    | .ok (right, ⟨rest', h⟩) =>
      match orMore (.or left right) rest' with
      | .error e => .error e
      | .ok (e, ⟨rest'', h'⟩) => .ok (e, ⟨rest'', by simp; omega⟩)
  | ts => .ok (left, ⟨ts, Nat.le_refl _⟩)
termination_by 5 * ts.length

end

/-- The expression that a whole list of tokens spells. -/
def Expression.ofTokens (ts : List Token) : Except Error Expression :=
  match disjunction ts with
  | .error e => .error e
  | .ok (e, ⟨[], _⟩) => .ok e
  | .ok (_, ⟨t :: _, _⟩) => .error (.unexpectedToken t.text)

/-- The expression of a condition. -/
def parse (condition : Text) : Except Error Expression := do
  Expression.ofTokens (← tokens condition)

end Stencil.Condition
