import Stencil.Condition.Evaluation
import Stencil.Proofs.Json.Ordered
import Stencil.Proofs.Numeral.Order
import Stencil.Proofs.Value.Display

/-!
# Comparing two values

The operators of a condition look at two values in three ways: at their structure, at the numbers
they stand for and at what they display. The three agree but for a few pairs of values, which
`Comparison.coherent` lists: values of one kind and structure are equal unless they are the word for
no number or collections that write a number in two ways, and equal values have an order only beside
a truth value or null, where they are equal by truth and ordered by display.
-/

namespace Stencil

namespace Value

/-- Whether the value is a text that reads as no number: the word for it in any case, with a sign or
not and with blanks around it or not. -/
def saysNoNumber : Value → Bool
  | str s => Text.toLower (Numeral.splitSign (Text.trim s)).2 == "nan".toList
  | _ => false

/-- Whether the value is a truth value or null. -/
def isTruth : Value → Bool
  | bool _ | null => true
  | _ => false

variable {a b : Value}

/-! ## Equality by value -/

/-- Values are equal as they are in order, but beside a truth value or null, where both are taken
for truth values. -/
theorem looseEq_eq (a b : Value) :
    a.looseEq b = if a.isTruth || b.isTruth then a.isTruthy == b.isTruthy else a.level b := by
  cases a <;> cases b <;> rfl

theorem toFloat?_of_isTruth (h : a.isTruth = true) : a.toFloat? = none := by
  cases a <;> first | rfl | cases h

theorem toFloat?_of_isCollection (h : a.isCollection = true) : a.toFloat? = none := by
  cases a <;> first | rfl | cases h

theorem display_of_isCollection (h : a.isCollection = true) : a.display = a.dump := by
  cases a <;> first | rfl | cases h

/-! ## Order -/

theorem before_of_isTruth (h : (a.isTruth || b.isTruth) = true) :
    a.before b = Text.before a.display b.display := by
  rcases Bool.or_eq_true_iff.1 h with h | h
  · simp [before, toFloat?_of_isTruth h]
  · cases ha : a.toFloat? <;> simp [before, toFloat?_of_isTruth h, ha]

theorem level_comm (a b : Value) : a.level b = b.level a := by
  unfold level
  cases a.toFloat? <;> cases b.toFloat? <;> simp only [BEq.comm]

/-- Values that are equal in order do not come one before the other. -/
theorem before_of_level (h : a.level b = true) : a.before b = false := by
  unfold level at h
  unfold before
  split at h
  · next x y _ _ => exact decide_eq_false (Numeral.not_lt_of_beq h)
  · rw [beq_iff_eq.1 h, Text.before_irrefl]

/-! ## Equality by structure -/

theorem level_str (s : Text) : (str s).level (str s) = !(str s).saysNoNumber := by
  have hword := Numeral.exists_isNaN_iff (t := Text.trim s)
  rw [Bool.eq_iff_iff, Bool.not_eq_true', saysNoNumber, beq_eq_false_iff_ne, ne_eq, ← hword]
  simp only [level, toFloat?]
  cases Numeral.float? (Text.trim s) with
  | none => simp
  | some x => simp

theorem level_of_isCollection (ha : a.isCollection = true) (hb : b.isCollection = true)
    (h : same a b = true) : a.level b = true ↔ ¬Respelled a b := by
  rw [← dump_ne_iff h, not_ne_iff, level, toFloat?_of_isCollection ha]
  simp [display_of_isCollection ha, display_of_isCollection hb]

/-- **Values equal in kind and structure** are equal in value, but for the word for no number and
for collections with a number written in two ways. -/
theorem looseEq_of_strictEq (h : a.strictEq b = true) :
    a.looseEq b = true ↔ ¬(a.saysNoNumber = true ∨ a.isCollection = true ∧ Respelled a b) := by
  obtain ⟨hkind, hsame⟩ := Bool.and_eq_true_iff.1 h
  rw [looseEq_eq]
  cases a <;> cases b <;> cases hkind
  case str.str s t =>
    obtain rfl : s = t := beq_iff_eq.1 hsame
    have hlevel := level_str s
    simp [isTruth, isCollection, hlevel]
  case int.int n m =>
    obtain rfl : n = m := beq_iff_eq.1 hsame
    have hself : (Float.ofInt n == Float.ofInt n) = true :=
      Float.beq_self_iff.2 (by simpa using Numeral.isNaN_ofInt n)
    simp [isTruth, isCollection, saysNoNumber, level, toFloat?, hself]
  case float.float x y =>
    have hself : (x == y) = true := hsame
    simp [isTruth, isCollection, saysNoNumber, level, toFloat?, hself]
  case bool.bool p q =>
    obtain rfl : p = q := beq_iff_eq.1 hsame
    simp [isTruth, isCollection, saysNoNumber]
  case null.null => simp [isTruth, isCollection, saysNoNumber]
  case list.list as bs =>
    have hlevel := level_of_isCollection (a := list as) (b := list bs) rfl rfl hsame
    simp [isTruth, isCollection, saysNoNumber, hlevel]
  case dict.dict as bs =>
    have hlevel := level_of_isCollection (a := dict as) (b := dict bs) rfl rfl hsame
    simp [isTruth, isCollection, saysNoNumber, hlevel]

/-! ## Equality and order -/

/-- **Equal values have an order** only beside a truth value or null, if the two display
differently. -/
theorem before_or_before_of_looseEq (h : a.looseEq b = true) :
    (a.before b = true ∨ b.before a = true) ↔
      (a.isTruth = true ∨ b.isTruth = true) ∧ a.display ≠ b.display := by
  rw [looseEq_eq] at h
  split at h
  · next htruth =>
    have htruth' : (b.isTruth || a.isTruth) = true := Bool.or_comm _ _ ▸ htruth
    rw [before_of_isTruth htruth, before_of_isTruth htruth', ← Bool.or_eq_true a.isTruth, htruth]
    refine ⟨fun hbefore => ⟨rfl, fun heq => ?_⟩, fun hne => Text.before_or_before_of_ne hne.2⟩
    rw [heq, Text.before_irrefl] at hbefore
    exact hbefore.elim Bool.noConfusion Bool.noConfusion
  · next htruth =>
    rw [before_of_level h, before_of_level (level_comm a b ▸ h), ← Bool.or_eq_true a.isTruth]
    simp [htruth]

end Value

namespace Comparison

variable (a b : Value)

/-- **The comparisons of two values agree** but for a few pairs. Strictly equal values are equal,
unless they are a text that reads as no number or two collections that write a number in two ways.
Equal values are neither one before nor one after the other, unless one of them is a truth value or
null and the two display differently. -/
theorem coherent :
    (strictEq.holds a b = true →
      (eq.holds a b = true ↔
        ¬(a.saysNoNumber = true ∨ a.isCollection = true ∧ a.Respelled b))) ∧
    (eq.holds a b = true →
      ((lt.holds a b = true ∨ gt.holds a b = true) ↔
        (a.isTruth = true ∨ b.isTruth = true) ∧ a.display ≠ b.display)) :=
  ⟨Value.looseEq_of_strictEq, Value.before_or_before_of_looseEq⟩

/-- A list of zero and a list of zero with a minus sign are strictly equal and not equal; null and
the truth value false are equal and have an order. -/
theorem coherent_exceptions :
    (strictEq.holds (.list [.float 0.0]) (.list [.float (-0.0)]) = true ∧
      eq.holds (.list [.float 0.0]) (.list [.float (-0.0)]) ≠ true) ∧
    eq.holds .null (.bool false) = true ∧
      (lt.holds .null (.bool false) = true ∨ gt.holds .null (.bool false) = true) := by
  have hsigned : Value.Respelled (.list [.float 0.0]) (.list [.float (-0.0)]) :=
    .item (List.mem_singleton.2 rfl) (.number rfl rfl (by decide +kernel))
  have hstrict : strictEq.holds (.list [.float 0.0]) (.list [.float (-0.0)]) = true := by
    decide +kernel
  exact ⟨⟨hstrict, fun heq => ((coherent _ _).1 hstrict).1 heq (.inr ⟨rfl, hsigned⟩)⟩, rfl,
    ((coherent _ _).2 rfl).2 ⟨.inl rfl, by decide⟩⟩

/-- Strictly equal values are not always equal: the word for no number is not equal to itself, and a
list of zero not to a list of zero with a minus sign. Equal values may come one before the other:
null comes before the truth value false. -/
theorem not_coherent :
    (strictEq.holds (.str "nan".toList) (.str "nan".toList) = true ∧
      eq.holds (.str "nan".toList) (.str "nan".toList) = false) ∧
    (strictEq.holds (.list [.float 0.0]) (.list [.float (-0.0)]) = true ∧
      eq.holds (.list [.float 0.0]) (.list [.float (-0.0)]) = false) ∧
    eq.holds .null (.bool false) = true ∧ lt.holds .null (.bool false) = true := by
  decide +kernel

end Comparison

end Stencil
