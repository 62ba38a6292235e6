import Stencil.Loop.Expansion
import Stencil.Proofs.Expansion.Rephrasing

/-!
# Renaming words

As long as no text of an element is spliced in, expanding a body changes whole words of a line and
leaves everything else where it is. `Renames` relates two such texts: they agree character by
character, except that a maximal run of path characters may stand for another one, and neither of
the two runs is a keyword. A renaming is a rephrasing (`rephrases`), so that two related texts hold
the same tags (`occursIn_keyword`, `occursIn_bare`). A label is the one place where a word matters;
there, a renamed word can destroy a tag and never make one (`occursIn_labelled`).
-/

namespace Stencil

/-! ## Words -/

/-- The words that begin a tag. -/
def tagKeywords : List Text :=
  ["extends", "include", "block", "for", "if", "static", "url", "endblock", "endfor", "endif"].map
    String.toList

theorem isKeyword_of_mem {kw : Text} (h : kw ∈ tagKeywords) : IsKeyword kw := by
  have key : ∀ kw ∈ tagKeywords, IsKeyword kw := by decide
  exact key kw h

/-- A word that may stand in a tag where no keyword is meant. -/
structure IsWord (w : Text) : Prop where
  ne_nil : w ≠ []
  isPathPart : ∀ c ∈ w, isPathPart c = true
  not_keyword : w ∉ tagKeywords

theorem isPathPart_of_keyword {kw : Text} (h : IsKeyword kw) : ∀ c ∈ kw, isPathPart c = true :=
  fun c hc => (isLower_separates (h.2 c hc)).2.1

theorem dot_not_mem_keyword {kw : Text} (h : IsKeyword kw) : '.' ∉ kw :=
  fun hc => (isLower_separates (h.2 _ hc)).2.2.1 rfl

/-- Two texts that differ in words related by `Q`. `joined` says that the character before the texts
is part of a word, so that no word begins here. -/
inductive Renames (Q : Text → Text → Prop) : (joined : Bool) → Text → Text → Prop where
  | nil {joined} : Renames Q joined [] []
  | char {joined c t t'} (h : Renames Q (isPathPart c) t t') : Renames Q joined (c :: t) (c :: t')
  | word {w w' c t t'} (hq : Q w w') (hw : IsWord w) (hw' : IsWord w') (hc : isPathPart c = false)
      (h : Renames Q false (c :: t) (c :: t')) : Renames Q false (w ++ c :: t) (w' ++ c :: t')

namespace Renames

variable {Q : Text → Text → Prop} {joined : Bool} {t t' : Text}

theorem refl (Q : Text → Text → Prop) (joined : Bool) (t : Text) : Renames Q joined t t := by
  induction t generalizing joined with
  | nil => exact .nil
  | cons c cs ih => exact .char (ih _)

theorem symm (h : Renames Q joined t t') : Renames (fun a b => Q b a) joined t' t := by
  induction h with
  | nil => exact .nil
  | char _ ih => exact .char ih
  | word hq hw hw' hc _ ih => exact .word hq hw' hw hc ih

theorem of_false {c : Char} {s s' : Text} (hc : isPathPart c = false)
    (h : Renames Q false (c :: s) s') (joined : Bool) : Renames Q joined (c :: s) s' := by
  generalize hx : c :: s = x at h
  cases h with
  | nil => cases hx
  | char h => exact .char h
  | @word w w' d u u' _ hw _ _ _ =>
    obtain ⟨y, w, rfl⟩ := List.exists_cons_of_ne_nil hw.ne_nil
    obtain ⟨rfl, -⟩ : c = y ∧ _ := by simpa using hx
    exact absurd (hw.isPathPart c (by simp)) (by simp [hc])

theorem append {s s' : Text} (h : Renames Q joined s s')
    (ht : ∀ joined, Renames Q joined t t') : Renames Q joined (s ++ t) (s' ++ t') := by
  induction h with
  | nil => exact ht _
  | char _ ih => exact .char ih
  | word hq hw hw' hc _ ih =>
    simp only [List.append_assoc, List.cons_append] at ih ⊢
    exact .word hq hw hw' hc ih

/-! ## Reading the second text back in the first -/

theorem cons_of_not_isPathPart {c : Char} {u' : Text} (hc : isPathPart c = false)
    (h : Renames Q joined t (c :: u')) : ∃ u, t = c :: u ∧ Renames Q false u u' := by
  generalize hx : c :: u' = x at h
  cases h with
  | nil => cases hx
  | char h =>
    obtain ⟨rfl, rfl⟩ : c = _ ∧ u' = _ := by simpa using hx
    exact ⟨_, rfl, hc ▸ h⟩
  | @word w w' d u u'' _ _ hw' _ _ =>
    obtain ⟨y, w', rfl⟩ := List.exists_cons_of_ne_nil hw'.ne_nil
    obtain ⟨rfl, -⟩ : c = y ∧ _ := by simpa using hx
    exact absurd (hw'.isPathPart c (by simp)) (by simp [hc])

theorem append_of_not_isPathPart {s u' : Text} (hs : ∀ c ∈ s, isPathPart c = false)
    (h : Renames Q false t (s ++ u')) : ∃ u, t = s ++ u ∧ Renames Q false u u' := by
  induction s generalizing t with
  | nil => exact ⟨t, rfl, h⟩
  | cons c s ih =>
    obtain ⟨u, rfl, hu⟩ := cons_of_not_isPathPart (hs c (by simp)) h
    obtain ⟨v, rfl, hv⟩ := ih (fun d hd => hs d (by simp [hd])) hu
    exact ⟨v, rfl, hv⟩

/-- Characters of no word are found in the first text too, behind a stretch that is empty only if
it is empty in the second, and that holds nothing else but path characters. -/
theorem infix_of_not_isPathPart {a' s u' : Text} (hne : s ≠ [])
    (hs : ∀ c ∈ s, isPathPart c = false) (h : Renames Q joined t (a' ++ s ++ u')) :
    ∃ a u, t = a ++ s ++ u ∧ (a = [] → a' = []) ∧ (∀ x ∈ a, x ∈ a' ∨ isPathPart x = true) ∧
      Renames Q false u u' := by
  obtain ⟨e, es, rfl⟩ := List.exists_cons_of_ne_nil hne
  generalize hx : a' ++ (e :: es) ++ u' = x at h
  induction h generalizing a' with
  | nil => simp at hx
  | @char joined c v v' h ih =>
    cases a' with
    | nil =>
      obtain ⟨rfl, rfl⟩ : e = c ∧ es ++ u' = v' := by simpa using hx
      obtain ⟨u, rfl, hu⟩ := append_of_not_isPathPart (fun d hd => hs d (by simp [hd]))
        (hs e (by simp) ▸ h)
      exact ⟨[], u, rfl, fun _ => rfl, by simp, hu⟩
    | cons b a' =>
      obtain ⟨rfl, hv⟩ : b = c ∧ a' ++ (e :: es) ++ u' = v' := by simpa using hx
      obtain ⟨a, u, rfl, -, ha, hu⟩ := ih hv
      refine ⟨b :: a, u, by simp, by simp, ?_, hu⟩
      intro y hy
      rcases List.mem_cons.1 hy with rfl | hy
      · simp
      · exact (ha y hy).imp (List.mem_cons_of_mem _) id
  | @word w w' c v v' hq hw hw' hc h ih =>
    -- the renamed word ends before the first character of no word
    obtain ⟨a'', rfl, h''⟩ := exists_run_append (s := a') (c := e) (u := es ++ u')
      (by simpa using hx) hw'.isPathPart (hs e (by simp))
    obtain ⟨a, u, hcu, ha, ha', hu⟩ := ih (by simpa using h'')
    refine ⟨w ++ a, u, by rw [hcu]; simp, fun hnil => ?_, ?_, hu⟩
    · exact absurd (List.append_eq_nil_iff.1 hnil).1 hw.ne_nil
    · intro y hy
      rcases List.mem_append.1 hy with hy | hy
      · exact .inr (hw.isPathPart y hy)
      · exact (ha' y hy).imp (List.mem_append_right _) id

theorem mem_of_mem {x : Char} (h : Renames Q joined t t') (hx : x ∈ t') :
    x ∈ t ∨ isPathPart x = true := by
  induction h with
  | nil => exact .inl hx
  | char _ ih =>
    rcases List.mem_cons.1 hx with rfl | hx
    · exact .inl (by simp)
    · exact (ih hx).imp (List.mem_cons_of_mem _) id
  | word _ _ hw' _ _ ih =>
    rcases List.mem_append.1 hx with hx | hx
    · exact .inr (hw'.isPathPart x hx)
    · exact (ih hx).imp (List.mem_append_right _) id

theorem newline_not_mem (h : Renames Q joined t t') (ht : '\n' ∉ t) : '\n' ∉ t' := by
  intro hx
  rcases h.mem_of_mem hx with hx | hx
  · exact ht hx
  · exact absurd hx (by decide)

theorem infix_iff {s : Text} (hne : s ≠ []) (hs : ∀ c ∈ s, isPathPart c = false)
    (h : Renames Q joined t t') : s <:+: t' ↔ s <:+: t := by
  constructor
  · rintro ⟨a, u, rfl⟩
    obtain ⟨a, u, rfl, -⟩ := infix_of_not_isPathPart hne hs h
    exact ⟨a, u, rfl⟩
  · rintro ⟨a, u, rfl⟩
    obtain ⟨a, u, rfl, -⟩ := infix_of_not_isPathPart hne hs h.symm
    exact ⟨a, u, rfl⟩

/-! ## Tags with a keyword -/

/-- A word can be replaced. -/
theorem isStretch_of_isWord {w t : Text} {c : Char} (hw : IsWord w) (hc : isPathPart c = false) :
    IsStretch false w (c :: t) := by
  obtain ⟨d, x, rfl⟩ := List.exists_cons_of_ne_nil hw.ne_nil
  exact .of_head (hw.isPathPart d (by simp)) (.of_isPathPart hw.isPathPart) hc

theorem rephrases (h : Renames Q joined t t') :
    Rephrases (fun w w' => Q w w' ∧ IsWord w ∧ IsWord w') joined t t' := by
  induction h with
  | nil => exact .nil
  | char _ ih => exact .char ih
  | word hq hw hw' hc _ ih =>
    exact .stretch ⟨hq, hw, hw'⟩ (isStretch_of_isWord hw hc) (isStretch_of_isWord hw' hc) ih

theorem untouched_of_mem {kw : Text} (hkw : kw ∈ tagKeywords) :
    Rephrases.Untouched (fun w w' => Q w w' ∧ IsWord w ∧ IsWord w') kw :=
  .of_isKeyword (isKeyword_of_mem hkw) fun _ _ hq => ⟨hq.2.1.isPathPart, by
    rintro rfl
    exact hq.2.1.not_keyword hkw⟩

theorem keyword_of_keyword {kw : Text} (hkw : kw ∈ tagKeywords) (h : Renames Q joined t t')
    (ho : (Pattern.keyword kw).occursIn t = true) : (Pattern.keyword kw).occursIn t' = true :=
  h.rephrases.occursIn_keyword (isKeyword_of_mem hkw) (untouched_of_mem hkw) ho

/-- **Tags with a keyword and an argument** are in both texts or in none. -/
theorem occursIn_keyword {kw : Text} (hkw : kw ∈ tagKeywords) (h : Renames Q joined t t') :
    (Pattern.keyword kw).occursIn t' = (Pattern.keyword kw).occursIn t := by
  rw [Bool.eq_iff_iff]
  exact ⟨keyword_of_keyword hkw h.symm, keyword_of_keyword hkw h⟩

theorem bare_of_bare {kw : Text} (hkw : kw ∈ tagKeywords) (h : Renames Q joined t t')
    (ho : (Pattern.bare kw).occursIn t = true) : (Pattern.bare kw).occursIn t' = true :=
  h.rephrases.occursIn_bare (isKeyword_of_mem hkw) (untouched_of_mem hkw) ho

/-- **Tags with a keyword and nothing else** are in both texts or in none. -/
theorem occursIn_bare {kw : Text} (hkw : kw ∈ tagKeywords) (h : Renames Q joined t t') :
    (Pattern.bare kw).occursIn t' = (Pattern.bare kw).occursIn t := by
  rw [Bool.eq_iff_iff]
  exact ⟨bare_of_bare hkw h.symm, bare_of_bare hkw h⟩

/-- **Tags with a keyword and a label** of the second text are in the first one too, if every new
word has a dot. -/
theorem occursIn_labelled (hq : ∀ w w', Q w w' → '.' ∈ w') {kw : Text} (hkw : kw ∈ tagKeywords)
    (h : Renames Q joined t t') (ho : (Pattern.labelled kw).occursIn t' = true) :
    (Pattern.labelled kw).occursIn t = true := by
  have hk := isKeyword_of_mem hkw
  obtain ⟨a', b', rfl, hb⟩ := (Pattern.occursIn_iff (Pattern.anchored_labelled kw)).1 ho
  obtain ⟨label, s, r', rfl, hs, hla⟩ := (Pattern.isSome_labelled_iff_isClosing hk).1 hb
  have hl : Rephrases.Untouched (fun w' w => Q w w' ∧ IsWord w' ∧ IsWord w) label := by
    refine .of_dot (Pattern.dot_not_mem_label hla) fun w' w hqw => ?_
    obtain ⟨p, r, rfl⟩ := List.append_of_mem (hq _ _ hqw.1)
    exact ⟨p, r, rfl, fun c hc => hqw.2.1.isPathPart c (by simp [hc])⟩
  obtain ⟨a, r, rfl⟩ := h.symm.rephrases.exists_isClosing hs (untouched_of_mem hkw) hl
  exact (Pattern.occursIn_iff (Pattern.anchored_labelled kw)).2
    ⟨a, _, rfl, (Pattern.isSome_labelled_iff_isClosing hk).2 ⟨label, s, r, rfl, hs, hla⟩⟩

end Renames

end Stencil
