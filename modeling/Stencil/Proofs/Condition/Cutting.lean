import Stencil.Condition.Token
import Stencil.Error
import Stencil.Proofs.Tag.Shape

/-!
# How a condition is cut

The cutting of a condition as a relation (`Cuts`): a quoted text up to its closing quote,
parentheses, and words and runs of operator characters that go on as long as they can. A condition
is cut into tokens in at most one way, and cutting succeeds exactly where there is one
(`tokens_eq_ok_iff`). Where in the condition a token stands shows in an error alone.
-/

namespace Stencil.Condition

/-! ## Classes of characters -/

theorem isQuote_iff {c : Char} : isQuote c = true ↔ c = '"' ∨ c = '\'' := by
  simp [isQuote]

theorem isOperatorPart_iff {c : Char} :
    isOperatorPart c = true ↔ c ∈ ['<', '>', '!', '=', '|', '&'] := by
  simp [isOperatorPart, or_assoc]

theorem isBlank_of_isQuote {c : Char} (h : isQuote c = true) : isBlank c = false := by
  rcases isQuote_iff.1 h with rfl | rfl <;> decide

theorem isOperatorPart_separates {c : Char} (h : isOperatorPart c = true) :
    isBlank c = false ∧ isQuote c = false ∧ c ≠ '(' ∧ c ≠ ')' := by
  have key : ∀ d ∈ ['<', '>', '!', '=', '|', '&'],
      isBlank d = false ∧ isQuote d = false ∧ d ≠ '(' ∧ d ≠ ')' := by decide
  exact key c (isOperatorPart_iff.1 h)

theorem isWordPart_separates {c : Char} (h : isWordPart c = true) :
    isBlank c = false ∧ isQuote c = false ∧ c ≠ '(' ∧ c ≠ ')' ∧ isOperatorPart c = false := by
  have key : ∀ d ∈ ['(', ')', '"', '\'', '<', '>', '!', '=', '|', '&'], isWordPart d = false := by
    decide
  have hne : ∀ d ∈ ['(', ')', '"', '\'', '<', '>', '!', '=', '|', '&'], c ≠ d := by
    rintro d hd rfl
    exact Bool.noConfusion (h.symm.trans (key c hd))
  refine ⟨?_, ?_, hne _ (by simp), hne _ (by simp), ?_⟩
  · refine Bool.eq_false_iff.2 fun hb => ?_
    obtain ⟨hp, -, hd, -⟩ := blank_separates hb
    have : (isPathPart c || c == '-') = true := h
    simp [hp, hd] at this
  · refine Bool.eq_false_iff.2 fun hq => ?_
    rcases isQuote_iff.1 hq with rfl | rfl <;> exact hne _ (by simp) rfl
  · exact Bool.eq_false_iff.2 fun ho =>
      hne c (by simp_all [isOperatorPart_iff.1 ho, List.mem_cons]) rfl

/-! ## Cutting off a token -/

section Steps

variable {t : Text} (offset : Nat)

theorem takeWhile_run {p : Char → Bool} {w : Text} (hw : ∀ c ∈ w, p c = true)
    (hrest : ∀ c ∈ t.head?, p c = false) :
    (w ++ t).takeWhile p = w ∧ (w ++ t).dropWhile p = t := by
  rw [List.takeWhile_append_of_pos hw, List.dropWhile_append_of_pos hw]
  cases t with
  | nil => simp
  | cons c cs => simp [hrest c (by simp)]

theorem tokensFrom_nil : tokensFrom offset [] = .ok [] := by rw [tokensFrom.eq_def]

theorem tokensFrom_blank {c : Char} (h : isBlank c = true) :
    tokensFrom offset (c :: t) = tokensFrom (offset + c.utf8Size) t := by
  rw [tokensFrom.eq_def]
  simp [h]

theorem tokensFrom_quoted {q : Char} {s : Text} (hq : isQuote q = true) (hs : q ∉ s) :
    tokensFrom offset (q :: (s ++ q :: t)) =
      (tokensFrom (offset + Text.utf8Size s + 2) t).map (.literal (.str s) :: ·) := by
  have hrun : (s ++ q :: t).takeWhile (· != q) = s ∧ (s ++ q :: t).dropWhile (· != q) = q :: t :=
    takeWhile_run (fun c hc => bne_iff_ne.2 fun e => hs (e ▸ hc)) (by simp)
  rw [tokensFrom.eq_def]
  simp only [isBlank_of_isQuote hq, hq, Bool.false_eq_true, if_false, if_true, hrun.1]
  split
  · next hd => simp [hrun.2] at hd
  · next hd =>
    obtain ⟨-, rfl⟩ : q = _ ∧ t = _ := by simpa [hrun.2] using hd
    rfl

theorem tokensFrom_unclosed {q : Char} (hq : isQuote q = true) (ht : q ∉ t) :
    tokensFrom offset (q :: t) = .error (.unterminatedQuote offset) := by
  have hend : (t ++ []).takeWhile (· != q) = t ∧ (t ++ []).dropWhile (· != q) = [] :=
    takeWhile_run (fun c hc => bne_iff_ne.2 fun e => ht (e ▸ hc)) (by simp)
  rw [List.append_nil] at hend
  rw [tokensFrom.eq_def]
  simp only [isBlank_of_isQuote hq, hq, Bool.false_eq_true, if_false, if_true]
  split
  · rfl
  · next hd => simp [hend.2] at hd

theorem tokensFrom_opening :
    tokensFrom offset ('(' :: t) = (tokensFrom (offset + 1) t).map (.opening :: ·) := by
  rw [tokensFrom.eq_def]
  rfl

theorem tokensFrom_closing :
    tokensFrom offset (')' :: t) = (tokensFrom (offset + 1) t).map (.closing :: ·) := by
  rw [tokensFrom.eq_def]
  rfl

theorem tokensFrom_run {w : Text} (hne : w ≠ []) (hw : ∀ c ∈ w, isOperatorPart c = true)
    (ht : ∀ c ∈ t.head?, isOperatorPart c = false) :
    tokensFrom offset (w ++ t) = (operators w).bind fun os =>
      (tokensFrom (offset + w.length) t).map (os ++ ·) := by
  obtain ⟨c, cs, rfl⟩ := List.exists_cons_of_ne_nil hne
  have hcut := takeWhile_run (fun d hd => hw d (List.mem_cons_of_mem c hd)) ht
  obtain ⟨hb, hq, ho, hc⟩ := isOperatorPart_separates (hw c List.mem_cons_self)
  rw [List.cons_append, tokensFrom.eq_def]
  simp [hb, hq, ho, hc, hw c List.mem_cons_self, hcut.1, hcut.2]
  rfl

theorem tokensFrom_word {w : Text} (hne : w ≠ []) (hw : ∀ c ∈ w, isWordPart c = true)
    (ht : ∀ c ∈ t.head?, isWordPart c = false) :
    tokensFrom offset (w ++ t) =
      (tokensFrom (offset + Text.utf8Size w) t).map (classify w :: ·) := by
  obtain ⟨c, cs, rfl⟩ := List.exists_cons_of_ne_nil hne
  have hcut := takeWhile_run (fun d hd => hw d (List.mem_cons_of_mem c hd)) ht
  obtain ⟨hb, hq, ho, hc, hop⟩ := isWordPart_separates (hw c List.mem_cons_self)
  rw [List.cons_append, tokensFrom.eq_def]
  simp [hb, hq, ho, hc, hop, hw c List.mem_cons_self, hcut.1, hcut.2]
  rfl

end Steps

/-! ## The cutting as a relation -/

/-- The text is cut into the tokens. -/
inductive Cuts : Text → List Token → Prop
  | nil : Cuts [] []
  | blank {c : Char} {t : Text} {ts : List Token} (hc : isBlank c = true) (h : Cuts t ts) :
    Cuts (c :: t) ts
  | quoted {q : Char} {s t : Text} {ts : List Token} (hq : isQuote q = true) (hs : q ∉ s)
    (h : Cuts t ts) : Cuts (q :: (s ++ q :: t)) (.literal (.str s) :: ts)
  | opening {t : Text} {ts : List Token} (h : Cuts t ts) : Cuts ('(' :: t) (.opening :: ts)
  | closing {t : Text} {ts : List Token} (h : Cuts t ts) : Cuts (')' :: t) (.closing :: ts)
  | run {w t : Text} {os ts : List Token} (hne : w ≠ []) (hw : ∀ c ∈ w, isOperatorPart c = true)
    (hend : ∀ c ∈ t.head?, isOperatorPart c = false) (ho : operators w = .ok os) (h : Cuts t ts) :
    Cuts (w ++ t) (os ++ ts)
  | word {w t : Text} {ts : List Token} (hne : w ≠ []) (hw : ∀ c ∈ w, isWordPart c = true)
    (hend : ∀ c ∈ t.head?, isWordPart c = false) (h : Cuts t ts) : Cuts (w ++ t) (classify w :: ts)

theorem Cuts.tokensFrom {t : Text} {ts : List Token} (h : Cuts t ts) (offset : Nat) :
    tokensFrom offset t = .ok ts := by
  induction h generalizing offset with
  | nil => exact tokensFrom_nil offset
  | blank hc _ ih => rw [tokensFrom_blank offset hc, ih]
  | quoted hq hs _ ih => rw [tokensFrom_quoted offset hq hs, ih]; rfl
  | opening _ ih => rw [tokensFrom_opening, ih]; rfl
  | closing _ ih => rw [tokensFrom_closing, ih]; rfl
  | run hne hw hend ho _ ih => rw [tokensFrom_run offset hne hw hend, ho, Except.bind, ih]; rfl
  | word hne hw hend _ ih => rw [tokensFrom_word offset hne hw hend, ih]; rfl

theorem exists_run {p : Char → Bool} {c : Char} (hc : p c = true) (cs : Text) :
    ∃ w t, c :: cs = w ++ t ∧ w ≠ [] ∧ (∀ d ∈ w, p d = true) ∧ (∀ d ∈ t.head?, p d = false) ∧
      t.length ≤ cs.length := by
  refine ⟨c :: cs.takeWhile p, cs.dropWhile p, by simp, by simp, fun d hd => ?_, fun d hd => ?_,
    length_dropWhile_le p cs⟩
  · rcases List.mem_cons.1 hd with rfl | hd
    · exact hc
    · exact List.all_eq_true.1 List.all_takeWhile d hd
  · have hnone := List.head?_dropWhile_not p cs
    rw [hd] at hnone
    simpa using hnone

theorem cuts_of_tokensFrom {offset : Nat} {t : Text} {ts : List Token}
    (h : tokensFrom offset t = .ok ts) : Cuts t ts := by
  induction hn : t.length using Nat.strongRecOn generalizing t offset ts with
  | _ n ih =>
  subst hn
  -- what stands behind a token is cut by induction
  have next : ∀ {offset : Nat} {t' : Text} {f : List Token → List Token},
      t'.length < t.length → (tokensFrom offset t').map f = .ok ts →
        ∃ ts', ts = f ts' ∧ Cuts t' ts' := by
    intro offset t' f hlt h
    obtain ⟨ts', h', rfl⟩ := Except.map_eq_ok_iff.1 h
    exact ⟨ts', rfl, ih _ hlt h' rfl⟩
  cases t with
  | nil =>
    rw [tokensFrom_nil] at h
    obtain rfl := Except.ok.inj h
    exact .nil
  | cons c cs =>
    by_cases hb : isBlank c = true
    · rw [tokensFrom_blank offset hb] at h
      exact .blank hb (ih _ (by simp) h rfl)
    by_cases hq : isQuote c = true
    · by_cases hm : c ∈ cs
      · obtain ⟨s, t, rfl, hs⟩ := List.eq_append_cons_of_mem hm
        rw [tokensFrom_quoted offset hq hs] at h
        obtain ⟨ts', rfl, hcuts⟩ := next (by simp; omega) h
        exact .quoted hq hs hcuts
      · rw [tokensFrom_unclosed offset hq hm] at h
        cases h
    by_cases hopen : c = '('
    · subst hopen
      rw [tokensFrom_opening] at h
      obtain ⟨ts', rfl, hcuts⟩ := next (by simp) h
      exact .opening hcuts
    by_cases hclose : c = ')'
    · subst hclose
      rw [tokensFrom_closing] at h
      obtain ⟨ts', rfl, hcuts⟩ := next (by simp) h
      exact .closing hcuts
    by_cases ho : isOperatorPart c = true
    · obtain ⟨w, t, heq, hne, hw, hend, hlen⟩ := exists_run ho cs
      rw [heq] at h ⊢
      rw [tokensFrom_run offset hne hw hend] at h
      obtain ⟨os, hos, h⟩ := Except.bind_eq_ok_iff.1 h
      obtain ⟨ts', rfl, hcuts⟩ := next (by simp; omega) h
      exact .run hne hw hend hos hcuts
    by_cases hword : isWordPart c = true
    · obtain ⟨w, t, heq, hne, hw, hend, hlen⟩ := exists_run hword cs
      rw [heq] at h ⊢
      rw [tokensFrom_word offset hne hw hend] at h
      obtain ⟨ts', rfl, hcuts⟩ := next (by simp; omega) h
      exact .word hne hw hend hcuts
    · rw [tokensFrom.eq_def] at h
      simp [hb, hq, hopen, hclose, ho, hword] at h

/-- **A condition is cut** into tokens exactly where the relation says so. -/
theorem tokens_eq_ok_iff {t : Text} {ts : List Token} : tokens t = .ok ts ↔ Cuts t ts :=
  ⟨cuts_of_tokensFrom, fun h => h.tokensFrom 0⟩

/-! ## Blanks around a condition -/

theorem Cuts.blanks {b t : Text} {ts : List Token} (hb : b.all isBlank) (h : Cuts t ts) :
    Cuts (b ++ t) ts := by
  induction b with
  | nil => exact h
  | cons c b ih =>
    obtain ⟨hc, hb⟩ := Bool.and_eq_true_iff.1 (List.all_cons ▸ hb)
    exact .blank hc (ih hb)

theorem Cuts.append_blanks {t e : Text} {ts : List Token} (he : e.all isBlank) (h : Cuts t ts) :
    Cuts (t ++ e) ts := by
  have hend : ∀ {p : Char → Bool} {t : Text}, (∀ c, isBlank c = true → p c = false) →
      (∀ c ∈ t.head?, p c = false) → ∀ c ∈ (t ++ e).head?, p c = false := by
    intro p t hp ht c hc
    cases t with
    | nil => exact hp c (List.all_eq_true.1 he c (List.mem_of_mem_head? hc))
    | cons d t => exact ht c hc
  induction h with
  | nil => simpa using Cuts.nil.blanks he
  | blank hc _ ih => exact .blank hc ih
  | quoted hq hs _ ih => simpa using Cuts.quoted hq hs ih
  | opening _ ih => exact .opening ih
  | closing _ ih => exact .closing ih
  | run hne hw ht ho _ ih =>
    rw [List.append_assoc]
    refine .run hne hw (hend (fun c hc => ?_) ht) ho ih
    exact Bool.eq_false_iff.2 fun hp => by simp [(isOperatorPart_separates hp).1] at hc
  | word hne hw ht _ ih =>
    rw [List.append_assoc]
    refine .word hne hw (hend (fun c hc => ?_) ht) ih
    exact Bool.eq_false_iff.2 fun hp => by simp [(isWordPart_separates hp).1] at hc

theorem Cuts.of_blanks {b t : Text} {ts : List Token} (hb : b.all isBlank) (h : Cuts (b ++ t) ts) :
    Cuts t ts := by
  induction b with
  | nil => exact h
  | cons c b ih =>
    obtain ⟨hc, hb⟩ := Bool.and_eq_true_iff.1 (List.all_cons ▸ hb)
    have hrest : Condition.tokensFrom (0 + c.utf8Size) (b ++ t) = .ok ts := by
      rw [← tokensFrom_blank 0 hc]
      exact h.tokensFrom 0
    exact ih hb (cuts_of_tokensFrom hrest)

/-- Blanks at the end of a text do not reach into a part that ends otherwise. -/
theorem exists_append_of_blanks {a s t e : Text} (he : e.all isBlank)
    (ha : ∃ c ∈ a.getLast?, isBlank c = false) (h : t ++ e = a ++ s) :
    ∃ t', t = a ++ t' ∧ s = t' ++ e := by
  rcases List.append_eq_append_iff.1 h with ⟨x, rfl, rfl⟩ | ⟨x, rfl, rfl⟩
  · rcases List.eq_nil_or_concat x with rfl | ⟨x, d, rfl⟩
    · exact ⟨[], by simp, rfl⟩
    · obtain ⟨c, hc, hblank⟩ := ha
      obtain rfl : d = c := by simpa using hc
      rw [List.all_eq_true.1 he d (by simp)] at hblank
      cases hblank
  · exact ⟨x, rfl, rfl⟩

theorem Cuts.of_append_blanks {t e : Text} {ts : List Token} (he : e.all isBlank)
    (h : Cuts (t ++ e) ts) : Cuts t ts := by
  have hlast : ∀ {p : Char → Bool} {w : Text}, (∀ c, p c = true → isBlank c = false) → w ≠ [] →
      (∀ c ∈ w, p c = true) → ∃ c ∈ w.getLast?, isBlank c = false := fun hp hne hw =>
    ⟨_, List.getLast?_eq_some_getLast hne, hp _ (hw _ (List.getLast_mem hne))⟩
  have hhead : ∀ {p : Char → Bool} {t : Text}, (∀ c ∈ (t ++ e).head?, p c = false) →
      ∀ c ∈ t.head?, p c = false := by
    intro p t h c hc
    obtain ⟨t, rfl⟩ := List.head?_eq_some_iff.1 hc
    exact h c rfl
  generalize hs : t ++ e = s at h
  induction h generalizing t with
  | nil =>
    obtain ⟨rfl, -⟩ := List.append_eq_nil_iff.1 hs
    exact .nil
  | @blank c s ts hc h ih =>
    cases t with
    | nil =>
      -- nothing but blanks is left
      have hnil := Cuts.nil.blanks he
      rw [List.append_nil, show e = c :: s from hs] at hnil
      obtain rfl : [] = ts := Except.ok.inj
        ((tokens_eq_ok_iff.2 hnil).symm.trans (tokens_eq_ok_iff.2 (.blank hc h)))
      exact .nil
    | cons d t =>
      obtain ⟨rfl, hrest⟩ := List.cons.inj hs
      exact .blank hc (ih hrest)
  | @quoted q s t' ts hq hq' h ih =>
    obtain ⟨t, rfl, hrest⟩ := exists_append_of_blanks (a := q :: s ++ [q]) he
      ⟨q, List.getLast?_concat, isBlank_of_isQuote hq⟩ (by simpa using hs)
    simpa using Cuts.quoted hq hq' (ih hrest.symm)
  | opening h ih =>
    obtain ⟨t, rfl, hrest⟩ := exists_append_of_blanks (a := ['(']) he ⟨'(', rfl, by decide⟩ hs
    exact .opening (ih hrest.symm)
  | closing h ih =>
    obtain ⟨t, rfl, hrest⟩ := exists_append_of_blanks (a := [')']) he ⟨')', rfl, by decide⟩ hs
    exact .closing (ih hrest.symm)
  | run hne hw hend ho h ih =>
    obtain ⟨t, rfl, rfl⟩ := exists_append_of_blanks he
      (hlast (fun c hc => (isOperatorPart_separates hc).1) hne hw) hs
    exact .run hne hw (hhead hend) ho (ih rfl)
  | word hne hw hend h ih =>
    obtain ⟨t, rfl, rfl⟩ := exists_append_of_blanks he
      (hlast (fun c hc => (isWordPart_separates hc).1) hne hw) hs
    exact .word hne hw (hhead hend) (ih rfl)

/-- **The blanks around a condition** do not matter. -/
theorem cuts_trim_iff {t : Text} {ts : List Token} : Cuts t.trim ts ↔ Cuts t ts := by
  obtain ⟨b, e, ht, hb, he⟩ := Text.exists_append_trim t
  constructor
  · intro h
    rw [ht]
    exact (h.append_blanks he).blanks hb
  · intro h
    rw [ht] at h
    exact (h.of_blanks hb).of_append_blanks he

end Stencil.Condition
