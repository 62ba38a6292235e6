import Stencil.Text.Blank

/-!
# Cutting and joining text

Cutting a text at a separator and joining the pieces are inverse to each other as long as no piece
holds the separator. Words are the maximal stretches without blanks.
-/

namespace Stencil.Text

/-- What is said of all characters of a text is decided one character after the other, and not for
all characters there are. -/
instance (priority := high) decidableForall (t : Text) (p : Char → Prop) [DecidablePred p] :
    Decidable (∀ c ∈ t, p c) := List.decidableBAll p t

/-- Whether a text is one of several is decided by comparing them. -/
instance (priority := high) decidableMem (t : Text) (ts : List Text) : Decidable (t ∈ ts) :=
  List.instDecidableMemOfLawfulBEq t ts

/-! ## Cutting at a separator -/

section Split

variable (sep : Char)

@[simp] theorem splitOn_nil : splitOn sep [] = [[]] := rfl

theorem splitOn_sep (t : Text) : splitOn sep (sep :: t) = [] :: splitOn sep t := by
  simp [splitOn]

variable {sep}

theorem splitOn_cons {c : Char} (h : c ≠ sep) (t : Text) :
    ∃ w ws, splitOn sep t = w :: ws ∧ splitOn sep (c :: t) = (c :: w) :: ws := by
  obtain ⟨w, ws, hw⟩ := List.exists_cons_of_ne_nil (splitOn_ne_nil sep t)
  exact ⟨w, ws, hw, by simp [splitOn, h, hw]⟩

theorem splitOn_of_not_mem {t : Text} (h : sep ∉ t) : splitOn sep t = [t] := by
  induction t with
  | nil => rfl
  | cons c cs ih =>
    have hne : c ≠ sep := fun e => h (e ▸ List.mem_cons_self)
    obtain ⟨w, ws, hw, hc⟩ := splitOn_cons hne cs
    rw [ih fun hm => h (by simp [hm])] at hw
    obtain ⟨rfl, rfl⟩ : cs = w ∧ [] = ws := by simpa using hw
    exact hc

theorem not_mem_of_mem_splitOn {t w : Text} (h : w ∈ splitOn sep t) : sep ∉ w := by
  induction t generalizing w with
  | nil =>
    obtain rfl : w = [] := by simpa using h
    simp
  | cons c cs ih =>
    by_cases hc : c = sep
    · subst hc
      rw [splitOn_sep] at h
      rcases List.mem_cons.1 h with rfl | h
      · simp
      · exact ih h
    · obtain ⟨v, vs, hv, he⟩ := splitOn_cons hc cs
      rw [he] at h
      rcases List.mem_cons.1 h with rfl | h
      · intro hm
        rcases List.mem_cons.1 hm with rfl | hm
        · exact hc rfl
        · exact ih (by rw [hv]; simp) hm
      · exact ih (by rw [hv]; simp [h])

theorem splitOn_append_left {s : Text} (h : sep ∉ s) (t : Text) :
    ∃ w ws, splitOn sep t = w :: ws ∧ splitOn sep (s ++ t) = (s ++ w) :: ws := by
  induction s with
  | nil =>
    obtain ⟨w, ws, hw⟩ := List.exists_cons_of_ne_nil (splitOn_ne_nil sep t)
    exact ⟨w, ws, hw, hw⟩
  | cons c s ih =>
    obtain ⟨w, ws, hw, hs⟩ := ih fun hm => h (List.mem_cons_of_mem c hm)
    have hne : c ≠ sep := fun e => h (e ▸ List.mem_cons_self)
    obtain ⟨w', ws', hw', hcons⟩ := splitOn_cons hne (s ++ t)
    obtain ⟨hfirst, hrest⟩ := List.cons.inj (hw'.symm.trans hs)
    exact ⟨w, ws, hw, by rw [List.cons_append, hcons, hfirst, hrest]; rfl⟩

theorem splitOn_append (s t : Text) :
    splitOn sep (s ++ sep :: t) = splitOn sep s ++ splitOn sep t := by
  induction s with
  | nil => simp [splitOn_sep]
  | cons c cs ih =>
    by_cases hc : c = sep
    · subst hc
      simp only [List.cons_append, splitOn_sep, ih]
    · obtain ⟨w, ws, hw, he⟩ := splitOn_cons hc cs
      obtain ⟨w', ws', hw', he'⟩ := splitOn_cons hc (cs ++ sep :: t)
      rw [ih, hw, List.cons_append] at hw'
      obtain ⟨rfl, rfl⟩ : w = w' ∧ ws ++ splitOn sep t = ws' := by simpa using hw'
      rw [List.cons_append, he', he, List.cons_append]

theorem join_cons {w : Text} {ws : List Text} (h : ws ≠ []) :
    join [sep] (w :: ws) = w ++ sep :: join [sep] ws := by
  obtain ⟨u, us, rfl⟩ := List.exists_cons_of_ne_nil h
  simp [join]

theorem join_splitOn (t : Text) : join [sep] (splitOn sep t) = t := by
  induction t with
  | nil => rfl
  | cons c cs ih =>
    by_cases hc : c = sep
    · subst hc
      rw [splitOn_sep, join_cons (splitOn_ne_nil _ _), ih]
      rfl
    · obtain ⟨w, ws, hw, he⟩ := splitOn_cons hc cs
      rw [he]
      rw [hw] at ih
      cases ws with
      | nil => simpa [join] using ih
      | cons u us =>
        rw [join_cons (by simp)] at ih ⊢
        simp [← ih]

theorem mem_of_mem_join {s w : Text} {ws : List Text} {c : Char} (hw : w ∈ ws) (hc : c ∈ w) :
    c ∈ join s ws := by
  induction ws with
  | nil => cases hw
  | cons v vs ih =>
    cases vs with
    | nil =>
      obtain rfl := List.mem_singleton.1 hw
      exact hc
    | cons u us =>
      rw [join, List.mem_append]
      rcases List.mem_cons.1 hw with rfl | hw
      · exact .inl (List.mem_append_left _ hc)
      · exact .inr (ih hw)

/-- The pieces hold characters of the text. -/
theorem mem_of_mem_splitOn {t w : Text} {c : Char} (hw : w ∈ splitOn sep t) (hc : c ∈ w) :
    c ∈ t := by
  have hj : join [sep] (splitOn sep t) = t := join_splitOn t
  exact hj ▸ mem_of_mem_join hw hc

/-- The first piece and what follows it. -/
theorem eq_of_splitOn_cons {t w : Text} {ws : List Text} (h : splitOn sep t = w :: ws) :
    (ws = [] ∧ t = w) ∨ (ws ≠ [] ∧ t = w ++ sep :: join [sep] ws) := by
  have hj : join [sep] (splitOn sep t) = t := join_splitOn t
  rw [h] at hj
  cases ws with
  | nil => exact .inl ⟨rfl, by simpa [join] using hj.symm⟩
  | cons u us => exact .inr ⟨by simp, by rw [← join_cons (by simp), hj]⟩

theorem splitOn_join {ws : List Text} (hne : ws ≠ []) (h : ∀ w ∈ ws, sep ∉ w) :
    splitOn sep (join [sep] ws) = ws := by
  induction ws with
  | nil => exact absurd rfl hne
  | cons w ws ih =>
    cases ws with
    | nil => simpa [join] using splitOn_of_not_mem (h w (by simp))
    | cons u us =>
      rw [join_cons (by simp), splitOn_append, splitOn_of_not_mem (h w (by simp)),
        ih (by simp) fun v hv => h v (by simp [hv])]
      rfl

end Split

/-! ## Words -/

theorem words_go_blank (word : Text) {c : Char} (h : Stencil.isBlank c = true) (t : Text) :
    words.go word (c :: t) = (if word.isEmpty then [] else [word.reverse]) ++ words.go [] t := by
  cases word <;> simp [words.go, h]

theorem words_go_part (word : Text) {c : Char} (h : Stencil.isBlank c = false) (t : Text) :
    words.go word (c :: t) = words.go (c :: word) t := by
  simp [words.go, h]

theorem words_blanks {b : Text} (hb : b.all Stencil.isBlank) (t : Text) :
    words (b ++ t) = words t := by
  induction b with
  | nil => rfl
  | cons c cs ih =>
    simp only [List.all_cons, Bool.and_eq_true] at hb
    rw [← ih hb.2]
    simp [words, words_go_blank [] hb.1]

theorem words_go_word {w : Text} (hw : ∀ c ∈ w, Stencil.isBlank c = false) (word t : Text) :
    words.go word (w ++ t) = words.go (w.reverse ++ word) t := by
  induction w generalizing word with
  | nil => rfl
  | cons c cs ih =>
    rw [List.cons_append, words_go_part _ (hw c (by simp)), ih fun d hd => hw d (by simp [hd])]
    simp

/-- A word that a blank follows. -/
theorem words_cons {w : Text} {c : Char} (hne : w ≠ []) (hw : ∀ x ∈ w, Stencil.isBlank x = false)
    (hc : Stencil.isBlank c = true) (t : Text) : words (w ++ c :: t) = w :: words t := by
  unfold words
  rw [words_go_word hw, words_go_blank _ hc]
  simp [hne]

theorem words_single {w : Text} (hne : w ≠ []) (hw : ∀ x ∈ w, Stencil.isBlank x = false) :
    words w = [w] := by
  have h := words_go_word hw [] []
  simp only [List.append_nil] at h
  unfold words
  rw [h]
  simp [words.go, hne]

theorem words_go_append_blanks {b : Text} (hb : b.all Stencil.isBlank) (word t : Text) :
    words.go word (t ++ b) = words.go word t := by
  induction t generalizing word with
  | nil =>
    cases b with
    | nil => rfl
    | cons c cs =>
      simp only [List.all_cons, Bool.and_eq_true] at hb
      have hrest : words.go [] cs = [] := by
        simpa [words, words.go] using words_blanks hb.2 []
      rw [List.nil_append, words_go_blank word hb.1, hrest]
      simp [words.go]
  | cons c cs ih =>
    by_cases hc : Stencil.isBlank c
    · rw [List.cons_append, words_go_blank word hc, words_go_blank word hc, ih]
    · have hc : Stencil.isBlank c = false := by simpa using hc
      rw [List.cons_append, words_go_part word hc, words_go_part word hc, ih]

theorem words_append_blanks {b : Text} (hb : b.all Stencil.isBlank) (t : Text) :
    words (t ++ b) = words t := words_go_append_blanks hb [] t

/-- The words hold the characters that are not blank. -/
theorem mem_words_go {word t w : Text} (h : w ∈ words.go word t)
    (hword : ∀ c ∈ word, Stencil.isBlank c = false) :
    w ≠ [] ∧ ∀ c ∈ w, (c ∈ word ∨ c ∈ t) ∧ Stencil.isBlank c = false := by
  induction t generalizing word with
  | nil =>
    by_cases hw : word = []
    · simp [words.go, hw] at h
    · obtain rfl : w = word.reverse := by simpa [words.go, hw] using h
      exact ⟨by simpa using hw, fun c hc => ⟨.inl (by simpa using hc), hword c (by simpa using hc)⟩⟩
  | cons d ds ih =>
    by_cases hd : Stencil.isBlank d
    · rw [words_go_blank word hd] at h
      rcases List.mem_append.1 h with h | h
      · by_cases hw : word = []
        · simp [hw] at h
        · obtain rfl : w = word.reverse := by simpa [hw] using h
          exact ⟨by simpa using hw,
            fun c hc => ⟨.inl (by simpa using hc), hword c (by simpa using hc)⟩⟩
      · obtain ⟨hne, hall⟩ := ih h (by simp)
        refine ⟨hne, fun c hc => ⟨?_, (hall c hc).2⟩⟩
        exact .inr (List.mem_cons_of_mem _ (by simpa using (hall c hc).1))
    · have hd : Stencil.isBlank d = false := by simpa using hd
      rw [words_go_part word hd] at h
      obtain ⟨hne, hall⟩ := ih h (by simpa [hd] using hword)
      refine ⟨hne, fun c hc => ⟨?_, (hall c hc).2⟩⟩
      rcases (hall c hc).1 with hm | hm
      · rcases List.mem_cons.1 hm with rfl | hm
        · simp
        · exact .inl hm
      · exact .inr (List.mem_cons_of_mem _ hm)

theorem mem_words {t w : Text} (h : w ∈ words t) :
    w ≠ [] ∧ ∀ c ∈ w, c ∈ t ∧ Stencil.isBlank c = false := by
  simpa using mem_words_go h (by simp)

theorem exists_mem_words_go {word t : Text} {c : Char} (h : c ∈ word ∨ c ∈ t)
    (hc : Stencil.isBlank c = false) : ∃ w ∈ words.go word t, c ∈ w := by
  induction t generalizing word with
  | nil =>
    have hm : c ∈ word := by simpa using h
    have hne : word ≠ [] := List.ne_nil_of_mem hm
    exact ⟨word.reverse, by simp [words.go, hne], by simpa using hm⟩
  | cons d ds ih =>
    by_cases hd : Stencil.isBlank d
    · rw [words_go_blank word hd]
      rcases h with hm | hm
      · have hne : word ≠ [] := List.ne_nil_of_mem hm
        exact ⟨word.reverse, by simp [hne], by simpa using hm⟩
      · rcases List.mem_cons.1 hm with rfl | hm
        · exact absurd hd (by simp [hc])
        · obtain ⟨w, hw, hcw⟩ := ih (.inr hm)
          exact ⟨w, List.mem_append_right _ hw, hcw⟩
    · rw [words_go_part word (by simpa using hd)]
      refine ih ?_
      rcases h with hm | hm
      · exact .inl (List.mem_cons_of_mem _ hm)
      · rcases List.mem_cons.1 hm with rfl | hm
        · exact .inl (by simp)
        · exact .inr hm

theorem exists_mem_words {t : Text} {c : Char} (h : c ∈ t) (hc : Stencil.isBlank c = false) :
    ∃ w ∈ words t, c ∈ w := exists_mem_words_go (.inr h) hc

end Stencil.Text
