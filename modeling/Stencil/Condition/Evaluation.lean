import Stencil.Condition.Expression
import Stencil.Context

/-!
# Evaluating conditions

Paths are looked up in the data and stand for null where there is nothing. Comparisons and the
logical operators give truth values; an operand by itself keeps its value, and the condition holds
when the value of the whole is taken for true. Evaluation never fails: what can go wrong with a
condition shows when it is parsed, whatever the data.
-/

namespace Stencil

namespace Value

/-- Equality across kinds. Beside a truth value or null both sides are taken for truth values;
otherwise two numbers are compared as numbers and anything else by what it displays. -/
def looseEq (a b : Value) : Bool :=
  match a, b with
  | bool _, _ | null, _ | _, bool _ | _, null => a.isTruthy == b.isTruthy
  | _, _ =>
    match a.toFloat?, b.toFloat? with
    | some x, some y => x == y
    | _, _ => a.display == b.display

/-- Equality within one kind. -/
def strictEq (a b : Value) : Bool := sameKind a b && same a b

/-- Whether the first value comes before the second: as numbers if both are, by display otherwise.
-/
def before (a b : Value) : Bool :=
  match a.toFloat?, b.toFloat? with
  | some x, some y => x < y
  | _, _ => Text.before a.display b.display

/-- Whether the values are equal in order: as numbers if both are, by display otherwise. -/
def level (a b : Value) : Bool :=
  match a.toFloat?, b.toFloat? with
  | some x, some y => x == y
  | _, _ => a.display == b.display

end Value

/-- Whether a comparison of two values holds. -/
def Comparison.holds : Comparison → Value → Value → Bool
  | eq, a, b => a.looseEq b
  | strictEq, a, b => a.strictEq b
  | ne, a, b => !a.looseEq b
  | strictNe, a, b => !a.strictEq b
  | lt, a, b => a.before b
  | gt, a, b => b.before a
  | le, a, b => a.before b || a.level b
  | ge, a, b => b.before a || a.level b

namespace Condition

/-- The value of an expression. -/
def Expression.value (context : Context) : Expression → Value
  | literal v => v
  | identifier path => (context.get? path).getD .null
  | group e => e.value context
  | compare c a b => .bool (c.holds (a.value context) (b.value context))
  | not e => .bool !(e.value context).isTruthy
  | and a b => .bool ((a.value context).isTruthy && (b.value context).isTruthy)
  | or a b => .bool ((a.value context).isTruthy || (b.value context).isTruthy)

/-- Whether a condition holds. -/
def evaluate (condition : Text) (context : Context) : Except Error Bool :=
  (parse condition).map fun e => (e.value context).isTruthy

/-- What a page shows in place of a body whose condition has no value. -/
def errorText (condition : Text) : Text :=
  "Error parsing condition \"".toList ++ condition ++ ['"']

end Condition

end Stencil
