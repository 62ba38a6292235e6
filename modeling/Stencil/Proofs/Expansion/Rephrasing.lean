import Stencil.Proofs.Tag.Shape

/-!
# Texts that differ in stretches

Expanding a body replaces paths, and the interpolation that numbers the iterations, and leaves
everything else where it is. `Rephrases` relates two such texts: they agree character by character,
except that a stretch of one may stand where a stretch of the other stood, and no stretch holds a
delimiter of tags with a keyword or a line end, or could begin or end one together with its
neighbours. So delimiters and line ends correspond one to one (`exists_of_break`), and so do blanks.
What could go wrong is a stretch that begins in the keyword or the label of a tag: where none does,
tags with a keyword and tags that close a body are in both texts (`occursIn_keyword`,
`exists_isClosing`).
-/

namespace Stencil

/-- The delimiters of tags with a keyword, and the line end. -/
def breaks : List Text := [Tag.opening, Tag.closing, ['\n']]

/-- Whether the character is fixed between stretches: no stretch begins with it. -/
def isFixed (c : Char) : Bool := isBlank c || c == '%' || c == '}'

/-- The text holds no break and ends like none. -/
structure IsInert (x : Text) : Prop where
  not_infix : ∀ s ∈ breaks, ¬ s <:+: x
  last : ∀ c ∈ x.getLast?, c ≠ '{' ∧ c ≠ '%'

/-- Whether a path goes on behind `s`, when one goes on before it if `joined`. -/
def joinedBehind : (joined : Bool) → (s : Text) → Bool
  | joined, [] => joined
  | _, c :: cs => joinedBehind (isPathPart c) cs

/-- The text can be replaced before `t`: it does not begin inside a path, and a path is replaced as a
whole. -/
structure IsStretch (joined : Bool) (x t : Text) : Prop where
  ne_nil : x ≠ []
  inert : IsInert x
  head : ∀ c ∈ x.head?, isFixed c = false
  starts : ∀ c ∈ x.head?, isPathStart c = true → joined = false
  ends : ∀ c ∈ x.head?, isPathStart c = true → ∃ d ∈ t.head?, isPathPart d = false

/-- Two texts that differ in stretches related by `Q`. `joined` says that a path goes on where the
texts begin. -/
inductive Rephrases (Q : Text → Text → Prop) : (joined : Bool) → Text → Text → Prop where
  | nil {joined} : Rephrases Q joined [] []
  | char {joined c t t'} (h : Rephrases Q (isPathPart c) t t') :
      Rephrases Q joined (c :: t) (c :: t')
  | stretch {joined behind x x' t t'} (hq : Q x x') (hx : IsStretch joined x t)
      (hx' : IsStretch joined x' t') (h : Rephrases Q behind t t') :
      Rephrases Q joined (x ++ t) (x' ++ t')

/-! ## Stretches and breaks -/

theorem isFixed_of_isBlank {c : Char} (h : isBlank c = true) : isFixed c = true := by
  simp [isFixed, h]

theorem isPathPart_of_isFixed {c : Char} (h : isFixed c = true) : isPathPart c = false := by
  simp only [isFixed, Bool.or_eq_true, beq_iff_eq] at h
  rcases h with (h | rfl) | rfl
  · exact (blank_separates h).1
  · decide
  · decide

theorem not_isFixed_of_isPathPart {c : Char} (h : isPathPart c = true) : isFixed c = false := by
  cases hf : isFixed c with
  | false => rfl
  | true => rw [isPathPart_of_isFixed hf] at h; cases h

theorem isFixed_of_blanks {b : Text} (hb : b.all isBlank) : ∀ c ∈ b, isFixed c = true :=
  fun c hc => isFixed_of_isBlank (List.all_eq_true.1 hb c hc)

theorem closing_isFixed : ∀ c ∈ Tag.closing, isFixed c = true := by decide

/-- A run of path characters ends before the first other character. -/
theorem exists_run_append {s w u v : Text} {c : Char} (h : s ++ c :: u = w ++ v)
    (hw : ∀ x ∈ w, isPathPart x = true) (hc : isPathPart c = false) :
    ∃ s', s = w ++ s' ∧ s' ++ c :: u = v := by
  induction w generalizing s with
  | nil => exact ⟨s, rfl, h⟩
  | cons y w ih =>
    cases s with
    | nil =>
      obtain ⟨rfl, -⟩ : c = y ∧ _ := by simpa using h
      exact absurd (hw c (by simp)) (by simp [hc])
    | cons x s =>
      obtain ⟨rfl, hs⟩ : x = y ∧ s ++ c :: u = w ++ v := by simpa using h
      obtain ⟨s', rfl, hv⟩ := ih hs fun z hz => hw z (by simp [hz])
      exact ⟨s', rfl, hv⟩

theorem joinedBehind_of_forall {s : Text} {b : Bool} (hs : ∀ c ∈ s, isPathPart c = b)
    (hne : s ≠ []) (joined : Bool) : joinedBehind joined s = b := by
  induction s generalizing joined with
  | nil => exact absurd rfl hne
  | cons c s ih =>
    cases s with
    | nil => exact hs c (by simp)
    | cons d s => exact ih (fun x hx => hs x (List.mem_cons_of_mem c hx)) (by simp) (isPathPart c)

theorem joinedBehind_append (joined : Bool) (s t : Text) :
    joinedBehind joined (s ++ t) = joinedBehind (joinedBehind joined s) t := by
  induction s generalizing joined with
  | nil => rfl
  | cons c s ih => exact ih (isPathPart c)

/-- Behind the first character of a break, all of it is fixed. -/
theorem tail_isFixed {s : Text} (h : s ∈ breaks) :
    ∃ c cs, s = c :: cs ∧ isPathPart c = false ∧ ∀ d ∈ cs, isFixed d = true := by
  simp only [breaks, List.mem_cons, List.not_mem_nil, or_false] at h
  rcases h with rfl | rfl | rfl
  · exact ⟨'{', ['%'], rfl, by decide, by decide⟩
  · exact ⟨'%', ['}'], rfl, by decide, by decide⟩
  · exact ⟨'\n', [], rfl, by decide, by decide⟩

namespace IsInert

variable {x y : Text}

/-- A break does not begin in an inert text. -/
theorem exists_of_append {t a s u : Text} (hx : IsInert x) (hs : s ∈ breaks)
    (h : x ++ t = a ++ (s ++ u)) : ∃ b, a = x ++ b ∧ t = b ++ (s ++ u) := by
  rcases List.append_eq_append_iff.1 h with ⟨b, ha, ht⟩ | ⟨y, rfl, hy⟩
  · exact ⟨b, ha, ht⟩
  cases y with
  | nil => exact ⟨[], by simp, by simpa using hy.symm⟩
  | cons c y =>
    exfalso
    have hlast := hx.last
    have hinfix := hx.not_infix s hs
    simp only [breaks, List.mem_cons, List.not_mem_nil, or_false] at hs
    rcases hs with rfl | rfl | rfl
    · obtain ⟨rfl, htail⟩ : '{' = c ∧ '%' :: u = y ++ t := by simpa [Tag.opening] using hy
      cases y with
      | nil => simp at hlast
      | cons d y =>
        obtain ⟨rfl, -⟩ := List.cons.inj htail
        exact hinfix ⟨a, y, by simp [Tag.opening]⟩
    · obtain ⟨rfl, htail⟩ : '%' = c ∧ '}' :: u = y ++ t := by simpa [Tag.closing] using hy
      cases y with
      | nil => simp at hlast
      | cons d y =>
        obtain ⟨rfl, -⟩ := List.cons.inj htail
        exact hinfix ⟨a, y, by simp [Tag.closing]⟩
    · obtain ⟨rfl, -⟩ : '\n' = c ∧ _ := by simpa using hy
      exact hinfix ⟨a, y, by simp⟩

theorem newline_not_mem (hx : IsInert x) : '\n' ∉ x := by
  intro h
  obtain ⟨a, u, rfl⟩ := List.append_of_mem h
  exact hx.not_infix ['\n'] (by simp [breaks]) ⟨a, u, by simp⟩

theorem append (hx : IsInert x) (hy : IsInert y) : IsInert (x ++ y) where
  not_infix s hs := by
    rintro ⟨a, u, h⟩
    obtain ⟨b, -, rfl⟩ := hx.exists_of_append hs (a := a) (u := u) (by simpa using h.symm)
    exact hy.not_infix s hs ⟨b, u, by simp⟩
  last c hc := by
    rw [List.getLast?_append] at hc
    cases hl : y.getLast? with
    | none => exact hx.last c (by simpa [hl] using hc)
    | some d => exact hy.last c (by rw [hl] at hc ⊢; exact hc)

theorem nil : IsInert [] where
  not_infix s hs h := by
    obtain ⟨c, cs, rfl, -⟩ := tail_isFixed hs
    simp at h
  last c hc := by cases hc

theorem join (hx : IsInert x) {ws : List Text} (hw : ∀ w ∈ ws, IsInert w) :
    IsInert (Text.join x ws) := by
  induction ws with
  | nil => exact .nil
  | cons w ws ih =>
    cases ws with
    | nil => exact hw w (by simp)
    | cons v vs =>
      exact ((hw w (by simp)).append hx).append (ih fun u hu => hw u (List.mem_cons_of_mem w hu))

theorem of_isPathPart (hx : ∀ c ∈ x, isPathPart c = true) : IsInert x where
  not_infix s hs h := by
    obtain ⟨c, cs, rfl, hc, -⟩ := tail_isFixed hs
    exact absurd (hx c (h.subset (by simp))) (by simp [hc])
  last c hc := by
    have hp := hx c (List.mem_of_getLast? hc)
    constructor <;> rintro rfl <;> exact absurd hp (by decide)

end IsInert

/-- A text that begins with a path character can be replaced before a character of no path, if it is
inert. -/
theorem IsStretch.of_head {c d : Char} {x t : Text} (hd : isPathPart d = true)
    (hx : IsInert (d :: x)) (hc : isPathPart c = false) : IsStretch false (d :: x) (c :: t) where
  ne_nil := by simp
  inert := hx
  head e he := by
    obtain rfl : d = e := by simpa using he
    exact not_isFixed_of_isPathPart hd
  starts _ _ _ := rfl
  ends _ _ _ := ⟨c, rfl, hc⟩

theorem IsStretch.append {joined : Bool} {x t : Text} (h : IsStretch joined x t) (u : Text) :
    IsStretch joined x (t ++ u) where
  ne_nil := h.ne_nil
  inert := h.inert
  head := h.head
  starts := h.starts
  ends c hc hs := by
    obtain ⟨d, hd, hp⟩ := h.ends c hc hs
    obtain ⟨v, rfl⟩ := List.head?_eq_some_iff.1 hd
    exact ⟨d, rfl, hp⟩

/-- A path that is replaced at some place of a text is a whole path of it. -/
theorem IsStretch.exists_word {joined : Bool} {y u w v : Text} (h : IsStretch joined w v)
    (hw : ∀ c ∈ w, isPathPart c = true) (hstart : ∀ c ∈ w.head?, isPathStart c = true)
    (hu : ∃ c ∈ u.head?, isFixed c = true) (he : y ++ u = w ++ v) :
    joined = false ∧ ∃ q, y = w ++ q ∧ ∀ c ∈ q.head?, isPathPart c = false := by
  obtain ⟨e, hf, hfixed⟩ := hu
  obtain ⟨u, rfl⟩ := List.head?_eq_some_iff.1 hf
  obtain ⟨q, rfl, rfl⟩ := exists_run_append he hw (isPathPart_of_isFixed hfixed)
  obtain ⟨c, w, rfl⟩ := List.exists_cons_of_ne_nil h.ne_nil
  obtain ⟨d, hd, hp⟩ := h.ends c rfl (hstart c rfl)
  refine ⟨h.starts c rfl (hstart c rfl), q, rfl, fun f hf => ?_⟩
  obtain ⟨q, rfl⟩ := List.head?_eq_some_iff.1 hf
  obtain rfl : f = d := by simpa using hd
  exact hp

namespace Rephrases

variable {Q : Text → Text → Prop} {joined : Bool} {t t' : Text}

theorem refl (Q : Text → Text → Prop) (joined : Bool) (t : Text) : Rephrases Q joined t t := by
  induction t generalizing joined with
  | nil => exact .nil
  | cons c cs ih => exact .char (ih _)

theorem symm (h : Rephrases Q joined t t') : Rephrases (fun a b => Q b a) joined t' t := by
  induction h with
  | nil => exact .nil
  | char _ ih => exact .char ih
  | stretch hq hx hx' _ ih => exact .stretch hq hx' hx ih

theorem append {s s' : Text} (h : Rephrases Q joined s s')
    (ht : ∀ joined, Rephrases Q joined t t') : Rephrases Q joined (s ++ t) (s' ++ t') := by
  induction h with
  | nil => exact ht _
  | char _ ih => exact .char ih
  | stretch hq hx hx' _ ih =>
    rw [List.append_assoc, List.append_assoc]
    exact .stretch hq (hx.append t) (hx'.append t') ih

/-! ## Reading the first text in the second -/

theorem cons_of_isFixed {c : Char} {u : Text} (hc : isFixed c = true)
    (h : Rephrases Q joined (c :: u) t') : ∃ u', t' = c :: u' ∧ Rephrases Q false u u' := by
  generalize hx : c :: u = x at h
  cases h with
  | nil => cases hx
  | char h =>
    obtain ⟨rfl, rfl⟩ := List.cons.inj hx
    exact ⟨_, rfl, isPathPart_of_isFixed hc ▸ h⟩
  | stretch _ hs =>
    obtain ⟨d, y, rfl⟩ := List.exists_cons_of_ne_nil hs.ne_nil
    obtain ⟨rfl, -⟩ := List.cons.inj hx
    exact absurd (hs.head c (by simp)) (by simp [hc])

theorem append_of_isFixed {s u : Text} (hs : ∀ c ∈ s, isFixed c = true)
    (h : Rephrases Q false (s ++ u) t') : ∃ u', t' = s ++ u' ∧ Rephrases Q false u u' := by
  induction s generalizing t' with
  | nil => exact ⟨t', rfl, h⟩
  | cons c s ih =>
    obtain ⟨v, rfl, hv⟩ := cons_of_isFixed (hs c (by simp)) h
    obtain ⟨u', rfl, hu⟩ := ih (fun d hd => hs d (by simp [hd])) hv
    exact ⟨u', rfl, hu⟩

/-- Before a fixed character it does not matter whether a path goes on. -/
theorem of_isFixed {u : Text} (hu : ∃ c ∈ u.head?, isFixed c = true) (h : Rephrases Q joined u t')
    (behind : Bool) : Rephrases Q behind u t' := by
  obtain ⟨c, hc, hf⟩ := hu
  obtain ⟨v, rfl⟩ := List.head?_eq_some_iff.1 hc
  obtain ⟨v', rfl, hv⟩ := cons_of_isFixed hf h
  exact .char (isPathPart_of_isFixed hf ▸ hv)

/-- **Breaks correspond**, and what stands before one is empty or holds a line end only if it does in
the first text. -/
theorem exists_of_break {a s u : Text} (hs : s ∈ breaks)
    (h : Rephrases Q joined (a ++ (s ++ u)) t') :
    ∃ a' u', t' = a' ++ (s ++ u') ∧ (a' = [] → a = []) ∧ ('\n' ∈ a' → '\n' ∈ a) ∧
      Rephrases Q false u u' := by
  generalize hx : a ++ (s ++ u) = x at h
  induction h generalizing a with
  | nil =>
    obtain ⟨c, cs, rfl, -⟩ := tail_isFixed hs
    simp at hx
  | @char joined c v v' h ih =>
    cases a with
    | nil =>
      obtain ⟨d, cs, rfl, hd, hcs⟩ := tail_isFixed hs
      obtain ⟨rfl, rfl⟩ : d = c ∧ cs ++ u = v := by simpa using hx
      rw [hd] at h
      obtain ⟨u', rfl, hu⟩ := append_of_isFixed hcs h
      exact ⟨[], u', rfl, fun _ => rfl, id, hu⟩
    | cons b a =>
      obtain ⟨rfl, hv⟩ := List.cons.inj hx
      obtain ⟨a', u', rfl, -, hn, hu⟩ := ih hv
      refine ⟨b :: a', u', rfl, by simp, fun hm => ?_, hu⟩
      rcases List.mem_cons.1 hm with rfl | hm
      · simp
      · exact List.mem_cons_of_mem b (hn hm)
  | stretch _ hy hy' h ih =>
    obtain ⟨b, rfl, hv⟩ := hy.inert.exists_of_append hs hx.symm
    obtain ⟨a', u', rfl, -, hn, hu⟩ := ih hv.symm
    refine ⟨_ ++ a', u', (List.append_assoc ..).symm, fun he => ?_, fun hm => ?_, hu⟩
    · exact absurd (List.append_eq_nil_iff.1 he).1 hy'.ne_nil
    · exact List.mem_append_right _
        (hn ((List.mem_append.1 hm).resolve_left hy'.inert.newline_not_mem))

/-- **A text stays, or a stretch begins in it.** -/
theorem append_or_begun {s u : Text} (h : Rephrases Q joined (s ++ u) t') :
    (∃ u', t' = s ++ u' ∧ Rephrases Q (joinedBehind joined s) u u') ∨
      ∃ a y x x' v v', s = a ++ y ∧ y ≠ [] ∧ y ++ u = x ++ v ∧ t' = a ++ (x' ++ v') ∧ Q x x' ∧
        IsStretch (joinedBehind joined a) x v := by
  induction s generalizing joined t' with
  | nil => exact .inl ⟨t', rfl, h⟩
  | cons c s ih =>
    generalize hx : c :: s ++ u = y at h
    cases h with
    | nil => cases hx
    | char h =>
      obtain ⟨rfl, rfl⟩ := List.cons.inj hx
      rcases ih h with ⟨u', rfl, hu⟩ | ⟨a, y, x, x', v, v', rfl, hy, hv, rfl, hq, hs⟩
      · exact .inl ⟨u', rfl, hu⟩
      · exact .inr ⟨c :: a, y, x, x', v, v', rfl, hy, hv, rfl, hq, hs⟩
    | stretch hq hs _ _ =>
      exact .inr ⟨[], c :: s, _, _, _, _, rfl, by simp, hx, rfl, hq, hs⟩

/-- No stretch begins in `s` where a fixed character stands behind it. -/
def Untouched (Q : Text → Text → Prop) (s : Text) : Prop :=
  ∀ ⦃a y u x x' v⦄, s = a ++ y → y ≠ [] → (∃ c ∈ u.head?, isFixed c = true) → y ++ u = x ++ v →
    Q x x' → ¬ IsStretch (joinedBehind false a) x v

namespace Untouched

variable {s : Text}

theorem nil : Untouched Q [] := by
  intro a y u x x' v hs hy
  simp [hy] at hs

/-- No stretch begins in a text that holds none of the characters with which stretches begin. -/
theorem of_head (hq : ∀ x x', Q x x' → ∀ c ∈ x.head?, c ∉ s) : Untouched Q s := by
  intro a y u x x' v hs hy _ he hqx hx
  obtain ⟨c, y, rfl⟩ := List.exists_cons_of_ne_nil hy
  obtain ⟨d, x, rfl⟩ := List.exists_cons_of_ne_nil hx.ne_nil
  obtain ⟨rfl, -⟩ := List.cons.inj he
  exact hq _ _ hqx c rfl (by simp [hs])

/-- No stretch begins in a text without dots, if every stretch begins with a path that has one. -/
theorem of_dot (hs : '.' ∉ s)
    (hq : ∀ x x', Q x x' → ∃ p r, x = p ++ '.' :: r ∧ ∀ c ∈ p, isPathPart c = true) :
    Untouched Q s := by
  rintro a y u x x' v rfl - ⟨c, hc, hf⟩ he hqx -
  obtain ⟨u, rfl⟩ := List.head?_eq_some_iff.1 hc
  obtain ⟨p, r, rfl, hp⟩ := hq _ _ hqx
  obtain ⟨y, rfl, -⟩ := exists_run_append (w := p ++ ['.']) (v := r ++ v) (by simpa using he)
    (by simpa [or_imp, forall_and] using ⟨hp, by decide⟩) (isPathPart_of_isFixed hf)
  simp at hs

/-- No stretch begins in a keyword, if stretches are paths and none of them is the keyword. -/
theorem of_isKeyword {kw : Text} (hkw : IsKeyword kw)
    (hq : ∀ x x', Q x x' → (∀ c ∈ x, isPathPart c = true) ∧ x ≠ kw) : Untouched Q kw := by
  intro a y u x x' v hs hy hu he hqx hx
  obtain ⟨hpart, hne⟩ := hq _ _ hqx
  have hkwp : ∀ c ∈ kw, isPathPart c = true := fun c hc => (isLower_separates (hkw.2 c hc)).2.1
  have hstart : ∀ c ∈ x.head?, isPathStart c = true := by
    intro c hc
    obtain ⟨d, y, rfl⟩ := List.exists_cons_of_ne_nil hy
    obtain ⟨x, rfl⟩ := List.head?_eq_some_iff.1 hc
    obtain ⟨rfl, -⟩ := List.cons.inj he
    exact isPathStart_of_isLower (hkw.2 d (by simp [hs]))
  obtain ⟨hj, q, rfl, hend⟩ := hx.exists_word hpart hstart hu he
  -- the keyword is one path, so that the stretch is all of it
  have ha : a = [] := Decidable.byContradiction fun ha => by
    rw [joinedBehind_of_forall (fun c hc => hkwp c (by simp [hs, hc])) ha] at hj
    cases hj
  cases q with
  | nil => exact hne (by simpa [ha] using hs.symm)
  | cons c q => exact absurd (hkwp c (by simp [hs])) (by simp [hend c rfl])

end Untouched

theorem append_of_untouched {s u : Text} (hs : Untouched Q s) (hu : ∃ c ∈ u.head?, isFixed c = true)
    (h : Rephrases Q false (s ++ u) t') : ∃ u', t' = s ++ u' ∧ Rephrases Q false u u' := by
  rcases append_or_begun h with ⟨u', rfl, hu'⟩ | ⟨a, y, x, x', v, v', he, hy, hv, -, hq, hx⟩
  · exact ⟨u', rfl, of_isFixed hu hu' false⟩
  · exact absurd hx (hs he hy hu hv hq)

/-! ## Tags with a keyword -/

theorem head_isFixed {i u : Text} (hi : ∀ c ∈ i, isFixed c = true)
    (hu : i = [] → ∃ c ∈ u.head?, isFixed c = true) : ∃ c ∈ (i ++ u).head?, isFixed c = true := by
  cases i with
  | nil => exact hu rfl
  | cons c i => exact ⟨c, rfl, hi c (by simp)⟩

/-- What begins with an opening delimiter, blanks and a keyword does so in both texts. -/
theorem exists_opening_keyword {a b kw u : Text} (hkw : Untouched Q kw) (hb : b.all isBlank)
    (hu : ∃ c ∈ u.head?, isFixed c = true)
    (h : Rephrases Q joined (a ++ (Tag.opening ++ b ++ kw ++ u)) t') :
    ∃ a' u', t' = a' ++ (Tag.opening ++ b ++ kw ++ u') ∧ Rephrases Q false u u' := by
  simp only [List.append_assoc] at h ⊢
  obtain ⟨a', v, rfl, -, -, hv⟩ := exists_of_break (by simp [breaks]) h
  obtain ⟨w, rfl, hw⟩ := append_of_isFixed (isFixed_of_blanks hb) hv
  obtain ⟨u', rfl, hu'⟩ := append_of_untouched hkw hu hw
  exact ⟨a', u', rfl, hu'⟩

/-- An argument and the delimiter behind it are in both texts. -/
theorem exists_isArgument {x r : Text} (hx : Tag.IsArgument x)
    (h : Rephrases Q joined (x ++ (Tag.closing ++ r)) t') :
    ∃ x' r', t' = x' ++ (Tag.closing ++ r') ∧ Tag.IsArgument x' := by
  rcases Tag.isArgument_iff.1 hx with ⟨hne, hn⟩ | ⟨p, q, rfl, hne, hn, hq⟩
  · obtain ⟨x', r', rfl, hne', hn', -⟩ := exists_of_break (by simp [breaks]) h
    exact ⟨x', r', rfl, Tag.isArgument_of_newline_not_mem (fun e => hne (hne' e))
      fun e => hn (hn' e)⟩
  · -- the argument ends with its line, and only blanks stand before the delimiter
    obtain ⟨p', v, rfl, hne', hn', hv⟩ :=
      exists_of_break (s := ['\n']) (by simp [breaks]) (by simpa using h)
    have hfixed : ∀ c ∈ q ++ Tag.closing, isFixed c = true := by
      simpa [or_imp, forall_and] using And.intro (isFixed_of_blanks hq) closing_isFixed
    obtain ⟨r', rfl, -⟩ := append_of_isFixed hfixed (by simpa using hv)
    exact ⟨p' ++ '\n' :: q, r', by simp, Tag.isArgument_iff.2
      (.inr ⟨p', q, rfl, fun e => hne (hne' e), fun e => hn (hn' e), hq⟩)⟩

/-- **Tags with a keyword and an argument** stay, if no stretch begins in the keyword. -/
theorem occursIn_keyword {kw : Text} (hk : IsKeyword kw) (hkw : Untouched Q kw)
    (h : Rephrases Q joined t t') (ho : (Pattern.keyword kw).occursIn t = true) :
    (Pattern.keyword kw).occursIn t' = true := by
  obtain ⟨a, s, rfl, hs⟩ := (Pattern.occursIn_iff (Pattern.anchored_keyword kw)).1 ho
  obtain ⟨b, i, x, r, rfl, hb, hne, hi, hx⟩ := (Pattern.isSome_keyword_iff hk).1 hs
  have hif := isFixed_of_blanks hi
  obtain ⟨a', u, rfl, hu⟩ :=
    exists_opening_keyword hkw hb (head_isFixed hif fun e => absurd e hne) h
  obtain ⟨v, rfl, hv⟩ := append_of_isFixed hif hu
  obtain ⟨x', r', rfl, hx'⟩ := exists_isArgument hx hv
  exact (Pattern.occursIn_iff (Pattern.anchored_keyword kw)).2
    ⟨a', _, rfl, (Pattern.isSome_keyword_iff hk).2 ⟨b, i, x', r', rfl, hb, hne, hi, hx'⟩⟩

/-- **A tag that closes a body** stays, or a stretch begins in its label. -/
theorem isClosing_or_begun {kw label a s r : Text} (hs : Tag.IsClosing kw label s)
    (hkw : Untouched Q kw) (h : Rephrases Q joined (a ++ (s ++ r)) t') :
    (∃ a' r', t' = a' ++ (s ++ r')) ∨
      ∃ a' b i p y u x x' v v', t' = a' ++ (Tag.opening ++ b ++ kw ++ (i ++ (p ++ (x' ++ v')))) ∧
        b.all isBlank ∧ i ≠ [] ∧ i.all isBlank ∧ label = p ++ y ∧ y ≠ [] ∧
        (∃ c ∈ u.head?, isFixed c = true) ∧ y ++ u = x ++ v ∧ Q x x' ∧
        IsStretch (joinedBehind false p) x v := by
  obtain ⟨b, i, e, rfl, hb, hi, he, hne⟩ := hs
  have hec : ∀ c ∈ e ++ Tag.closing, isFixed c = true := by
    simpa [or_imp, forall_and] using And.intro (isFixed_of_blanks he) closing_isFixed
  have hue : ∃ c ∈ (e ++ Tag.closing ++ r).head?, isFixed c = true := by
    rw [List.append_assoc]
    exact head_isFixed (isFixed_of_blanks he) fun _ => ⟨'%', rfl, by decide⟩
  have hui : ∃ c ∈ (i ++ (label ++ (e ++ Tag.closing ++ r))).head?, isFixed c = true := by
    refine head_isFixed (isFixed_of_blanks hi) fun hi => ?_
    rw [hne hi]
    exact hue
  have h' : Rephrases Q joined
      (a ++ (Tag.opening ++ b ++ kw ++ (i ++ (label ++ (e ++ Tag.closing ++ r))))) t' := by
    simpa using h
  obtain ⟨a', u, rfl, hu⟩ := exists_opening_keyword hkw hb hui h'
  obtain ⟨v, rfl, hv⟩ := append_of_isFixed (isFixed_of_blanks hi) hu
  rcases append_or_begun hv with ⟨w, rfl, hw⟩ | ⟨p, y, x, x', w, w', hl, hy, hx, rfl, hq, hst⟩
  · obtain ⟨r', rfl, -⟩ := append_of_isFixed hec (of_isFixed hue hw false)
    exact .inl ⟨a', r', by simp⟩
  · have hne' : i ≠ [] := by
      intro hi
      simp [hne hi, hy] at hl
    exact .inr ⟨a', b, i, p, y, _, x, x', w, w', rfl, hb, hne', hi, hl, hy, hue, hx, hq, hst⟩

/-- **A tag that closes a body** stays, if no stretch begins in its keyword or its label. -/
theorem exists_isClosing {kw label a s r : Text} (hs : Tag.IsClosing kw label s)
    (hkw : Untouched Q kw) (hl : Untouched Q label) (h : Rephrases Q joined (a ++ (s ++ r)) t') :
    ∃ a' r', t' = a' ++ (s ++ r') := by
  rcases isClosing_or_begun hs hkw h with
    hstay | ⟨a', b, i, p, y, u, x, x', v, v', -, -, -, -, he, hy, hu, hx, hq, hst⟩
  · exact hstay
  · exact absurd hst (hl he hy hu hx hq)

theorem occursIn_bare {kw : Text} (hk : IsKeyword kw) (hkw : Untouched Q kw)
    (h : Rephrases Q joined t t') (ho : (Pattern.bare kw).occursIn t = true) :
    (Pattern.bare kw).occursIn t' = true := by
  obtain ⟨a, b, rfl, hb⟩ := (Pattern.occursIn_iff (Pattern.anchored_bare kw)).1 ho
  obtain ⟨s, r, rfl, hs⟩ := (Pattern.isSome_bare_iff_isClosing hk).1 hb
  obtain ⟨a', r', rfl⟩ := h.exists_isClosing hs hkw .nil
  exact (Pattern.occursIn_iff (Pattern.anchored_bare kw)).2
    ⟨a', _, rfl, (Pattern.isSome_bare_iff_isClosing hk).2 ⟨s, r', rfl, hs⟩⟩

end Rephrases

end Stencil
