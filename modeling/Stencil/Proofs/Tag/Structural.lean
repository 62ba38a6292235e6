import Stencil.Proofs.Tag.Reach

/-!
# Structural tags

A structural tag is an opening delimiter, blanks, one of six words and whatever stands up to the
next closing delimiter (`structural_eq_some_iff`). What stands behind it does not matter
(`structural_append`), and every tag that opens or closes a body is one, if it does not go over the
end of a line (`occursIn_structural_of_occursIn`, `occursIn_structural_of_closesIn`).
-/

namespace Stencil

namespace Tag

/-- A stretch up to a closing delimiter does not depend on what stands behind it. -/
theorem upTo?_closing_append {t x : Text} (h : upTo? closing t = some x) (rest : Text) :
    upTo? closing (x ++ rest) = some x := by
  have hstop : closing = stop false := rfl
  rw [hstop] at h ⊢
  obtain ⟨inner, -, rfl, rfl, hn, hfirst⟩ := exists_of_upTo?_stop h
  exact upTo?_stop_eq_some_iff.2 ⟨inner, rest, rfl, rfl, hn, hfirst⟩

end Tag

namespace Pattern

open Tag

/-! ## The words -/

/-- The words that open a body. -/
def openingWords : List Text := ["block".toList, "for".toList, "if".toList]

/-- The words of structural tags: those that open a body, and the same behind the word that closes.
-/
def structuralWords : List Text := openingWords ++ openingWords.map ("end".toList ++ ·)

/-- Whether no word goes on where the text begins. -/
def EndsWord (t : Text) : Prop := ∀ c ∈ t.head?, isWordChar c = false

theorem endsWord_iff {t : Text} : EndsWord t ↔ (t.head?.map isWordChar).getD false = false := by
  cases t <;> simp [EndsWord]

theorem EndsWord.append {t : Text} (h : EndsWord t) (hne : t ≠ []) (rest : Text) :
    EndsWord (t ++ rest) := by
  obtain ⟨c, cs, rfl⟩ := List.exists_cons_of_ne_nil hne
  exact h

theorem endsWord_of_isBlank {t : Text} (hne : t ≠ []) (h : t.all isBlank) : EndsWord t := by
  obtain ⟨x, xs, rfl⟩ := List.exists_cons_of_ne_nil hne
  rw [List.all_cons, Bool.and_eq_true] at h
  rintro c ⟨⟩
  exact (blank_separates h.1).2.1

/-- A word that opens a body at the start of the text, with `ending` in front of it. -/
def wordAt? (ending t : Text) : Option (Text × Text) :=
  openingWords.findSome? fun word => do
    let rest ← Text.after? word t
    if (rest.head?.map isWordChar).getD false then none else some (ending ++ word, rest)

theorem wordAt?_eq_some_iff {ending t word rest : Text} :
    wordAt? ending t = some (word, rest) ↔
      ∃ w ∈ openingWords, word = ending ++ w ∧ t = w ++ rest ∧ EndsWord rest := by
  unfold wordAt?
  constructor
  · intro h
    obtain ⟨w, hmem, hw⟩ := List.exists_of_findSome?_eq_some h
    obtain ⟨r, hr, hw⟩ := Option.bind_eq_some_iff.1 hw
    split at hw
    · cases hw
    · next hends =>
      obtain ⟨rfl, rfl⟩ : ending ++ w = word ∧ r = rest := by simpa using hw
      exact ⟨w, hmem, rfl, (Text.append_of_after? hr).symm,
        endsWord_iff.2 (Bool.not_eq_true _ ▸ hends)⟩
  · rintro ⟨w, hmem, rfl, rfl, hends⟩
    have hhead := endsWord_iff.1 hends
    -- the words differ in their first characters, so that only the right one is found
    have hfor : Text.after? "block".toList ("for".toList ++ rest) = none := rfl
    have hif : Text.after? "block".toList ("if".toList ++ rest) = none := rfl
    have hif' : Text.after? "for".toList ("if".toList ++ rest) = none := rfl
    simp only [openingWords, List.mem_cons, List.not_mem_nil, or_false] at hmem
    rcases hmem with rfl | rfl | rfl <;>
      simp only [openingWords, List.findSome?_cons, Text.after?_append, Option.bind_eq_bind,
        Option.bind_some, Option.bind_none, hhead, hfor, hif, hif', Bool.false_eq_true, if_false]

theorem structuralWord?_eq (t : Text) :
    structuralWord? t =
      match Text.after? "end".toList t with
      | some rest => wordAt? "end".toList rest
      | none => wordAt? [] t := by
  unfold structuralWord?
  cases Text.after? "end".toList t <;> rfl

theorem structuralWord?_eq_some_iff {t word rest : Text} :
    structuralWord? t = some (word, rest) ↔
      t = word ++ rest ∧ word ∈ structuralWords ∧ EndsWord rest := by
  rw [structuralWord?_eq]
  constructor
  · intro h
    split at h
    · next t' ht =>
      obtain ⟨w, hmem, rfl, rfl, hends⟩ := wordAt?_eq_some_iff.1 h
      refine ⟨?_, List.mem_append_right _ (List.mem_map_of_mem hmem), hends⟩
      rw [← Text.append_of_after? ht, List.append_assoc]
    · obtain ⟨w, hmem, rfl, rfl, hends⟩ := wordAt?_eq_some_iff.1 h
      exact ⟨rfl, List.mem_append_left _ hmem, hends⟩
  · rintro ⟨rfl, hword, hends⟩
    rcases List.mem_append.1 hword with hw | hw
    · have hnone : Text.after? "end".toList (word ++ rest) = none := by
        simp only [openingWords, List.mem_cons, List.not_mem_nil, or_false] at hw
        rcases hw with rfl | rfl | rfl <;> rfl
      rw [hnone]
      exact wordAt?_eq_some_iff.2 ⟨word, hw, rfl, rfl, hends⟩
    · obtain ⟨w, hmem, rfl⟩ := List.mem_map.1 hw
      rw [List.append_assoc, Text.after?_append]
      exact wordAt?_eq_some_iff.2 ⟨w, hmem, rfl, rfl, hends⟩

/-! ## The tags -/

theorem head_structuralWord {word : Text} (h : word ∈ structuralWords) (rest : Text) :
    ∀ c ∈ (word ++ rest).head?, isBlank c = false := by
  have key : ∀ w ∈ structuralWords, w.head?.any (!isBlank ·) = true := by decide
  cases word with
  | nil => cases key [] h
  | cons c cs => simpa using key (c :: cs) h

/-- **A structural tag** is a word between blanks and the first closing delimiter behind it. What
stands behind the tag does not matter. -/
theorem structural_eq_some_iff {t : Text} {tag : Tag} :
    structural t = some tag ↔
      ∃ b word tail rest, tag = ⟨opening ++ b ++ word ++ tail, []⟩ ∧ t = tag.source ++ rest ∧
        b.all isBlank ∧ word ∈ structuralWords ∧ EndsWord tail ∧
        upTo? closing tail = some tail := by
  constructor
  · intro h
    unfold structural at h
    simp only [Option.bind_eq_bind, Option.bind_eq_some_iff, Option.pure_def,
      Option.some.injEq] at h
    obtain ⟨inner, hinner, ⟨word, r⟩, hword, tail, htail, rfl⟩ := h
    obtain ⟨hsplit, hmem, hends⟩ := structuralWord?_eq_some_iff.1 hword
    obtain ⟨rest, rfl⟩ := upTo?_start htail
    have htail' : upTo? closing tail = some tail := by
      simpa using upTo?_closing_append htail []
    have hne : tail ≠ [] := by rintro rfl; cases htail'
    obtain ⟨c, cs, rfl⟩ := List.exists_cons_of_ne_nil hne
    refine ⟨Text.indent inner, word, c :: cs, rest, rfl, ?_, Text.all_indent inner, hmem, hends,
      htail'⟩
    rw [Text.after?_eq_some_iff.1 hinner]
    conv => lhs; rw [← Text.indent_append_trimStart inner, hsplit]
    simp
  · rintro ⟨b, word, tail, rest, rfl, rfl, hb, hword, hends, htail⟩
    have hne : tail ≠ [] := by rintro rfl; cases htail
    have hinner : Text.after? opening (opening ++ b ++ word ++ tail ++ rest) =
        some (b ++ (word ++ (tail ++ rest))) := by
      simp only [List.append_assoc, Text.after?_append]
    have hhead := head_structuralWord hword (tail ++ rest)
    have hword' := structuralWord?_eq_some_iff.2 ⟨rfl, hword, hends.append hne rest⟩
    unfold structural
    simp only [hinner, Option.bind_eq_bind, Option.bind_some, Text.trimStart_append hb hhead,
      Text.indent_append hb hhead, hword', upTo?_closing_append htail rest]
    rfl

theorem structural_append {t : Text} {tag : Tag} (h : structural t = some tag) (rest : Text) :
    structural (tag.source ++ rest) = some tag := by
  obtain ⟨b, word, tail, -, htag, -, hb, hword, hends, htail⟩ := structural_eq_some_iff.1 h
  exact structural_eq_some_iff.2 ⟨b, word, tail, rest, htag, rfl, hb, hword, hends, htail⟩

/-- A word between blanks is a structural tag if a closing delimiter follows on the line. -/
theorem isSome_structural {b word rest : Text} (hb : b.all isBlank)
    (hword : word ∈ structuralWords) (hends : EndsWord rest) (hn : '\n' ∉ rest)
    (hd : closing <:+: rest) : (structural (opening ++ b ++ word ++ rest)).isSome = true := by
  obtain ⟨tail, htail⟩ := Option.isSome_iff_exists.1 ((isSome_upTo?_iff hn closing_ne_nil).2 hd)
  obtain ⟨r, rfl⟩ := upTo?_start htail
  have hself : upTo? closing tail = some tail := by simpa using upTo?_closing_append htail []
  have hends' : EndsWord tail := by
    cases tail with
    | nil => cases hself
    | cons c cs => exact hends
  exact Option.isSome_iff_exists.2
    ⟨_, structural_eq_some_iff.2 ⟨b, word, tail, r, rfl, by simp, hb, hword, hends', hself⟩⟩

/-! ## Tags that open and close bodies -/

variable {t : Text}

/-- The tag that opens a body is structural. -/
theorem isSome_structural_of_keyword {word : Text} (hn : '\n' ∉ t) (hword : word ∈ openingWords)
    (h : (keyword word t).isSome = true) : (structural t).isSome = true := by
  have hkw : IsKeyword word := by
    simp only [openingWords, List.mem_cons, List.not_mem_nil, or_false] at hword
    rcases hword with rfl | rfl | rfl <;> decide
  obtain ⟨b, i, x, r, rfl, hb, hi, hib, -⟩ := (isSome_keyword_iff hkw).1 h
  refine isSome_structural hb (List.mem_append_left _ hword)
    ((endsWord_of_isBlank hi hib).append hi _) (fun hm => hn (List.mem_append_right _ hm))
    ⟨i ++ x, r, by simp⟩

/-- The tag that closes a body is structural. -/
theorem isSome_structural_of_bare (word : Text) (hn : '\n' ∉ t) (hword : word ∈ openingWords)
    (h : (bare ("end".toList ++ word) t).isSome = true) : (structural t).isSome = true := by
  have hkw : IsKeyword ("end".toList ++ word) := by
    simp only [openingWords, List.mem_cons, List.not_mem_nil, or_false] at hword
    rcases hword with rfl | rfl | rfl <;> decide
  obtain ⟨b, e, r, rfl, hb, he⟩ := (isSome_bare_iff hkw).1 h
  have hends : EndsWord (e ++ closing ++ r) := by
    cases e with
    | nil => rintro c ⟨⟩; decide
    | cons x xs =>
      rw [List.append_assoc]
      exact (endsWord_of_isBlank (by simp) he).append (by simp) _
  exact isSome_structural hb (List.mem_append_right _ (List.mem_map_of_mem hword)) hends
    (fun hm => hn (List.mem_append_right _ hm)) ⟨e, r, rfl⟩

/-- The tag that closes a block is structural, whatever its label. -/
theorem isSome_structural_of_labelled (hn : '\n' ∉ t)
    (h : (labelled "endblock".toList t).isSome = true) : (structural t).isSome = true := by
  rcases (isSome_labelled_iff (by decide)).1 h with h | ⟨b, i, label, e, r, rfl, hb, hi, hib, -⟩
  · exact isSome_structural_of_bare "block".toList hn (by decide) h
  · have hends : EndsWord (i ++ label ++ (e ++ closing ++ r)) := by
      rw [List.append_assoc]
      exact (endsWord_of_isBlank hi hib).append hi _
    exact isSome_structural hb (by decide) hends (fun hm => hn (List.mem_append_right _ hm))
      ⟨i ++ label ++ e, r, by simp⟩

end Pattern

/-- A line without a structural tag is not cut. -/
theorem splitStructural_of_not_occursIn {t : Text} (h : Pattern.structural.occursIn t = false) :
    splitStructural t = [t] := by
  unfold splitStructural
  split
  · rfl
  · next before tags hne heq =>
    obtain ⟨p, ps, rfl⟩ := List.exists_cons_of_ne_nil hne
    rw [Pattern.occursIn_of_cut heq] at h
    cases h

namespace Directive

variable {d : Directive} {t : Text}

theorem occursIn_structural {p : Pattern} (hp : p.Anchored) (hn : '\n' ∉ t)
    (himp : ∀ s : Text, '\n' ∉ s → (p s).isSome = true → (Pattern.structural s).isSome = true)
    (h : p.occursIn t = true) : Pattern.structural.occursIn t = true := by
  obtain ⟨a, s, rfl, hs⟩ := (Pattern.occursIn_iff hp).1 h
  exact (Pattern.occursIn_iff Pattern.anchored_structural).2
    ⟨a, s, rfl, himp s (fun hm => hn (List.mem_append_right _ hm)) hs⟩

/-- **A tag that opens a body is a structural tag.** -/
theorem occursIn_structural_of_occursIn (hd : d.closing?.isSome = true) (hn : '\n' ∉ t)
    (h : d.occursIn t = true) : Pattern.structural.occursIn t = true := by
  cases d with
  | block | loop | condition =>
    refine occursIn_structural (Pattern.anchored_keyword _) hn (fun s hs => ?_) h
    exact Pattern.isSome_structural_of_keyword hs (by decide)
  | _ => cases hd

/-- **A tag that closes a body is a structural tag.** -/
theorem occursIn_structural_of_closesIn (hn : '\n' ∉ t) (h : d.closesIn t = true) :
    Pattern.structural.occursIn t = true := by
  cases d with
  | block =>
    exact occursIn_structural (Pattern.anchored_labelled _) hn
      (fun s => Pattern.isSome_structural_of_labelled) h
  | loop =>
    refine occursIn_structural (Pattern.anchored_bare _) hn (fun s hs => ?_) h
    exact Pattern.isSome_structural_of_bare "for".toList hs (by decide)
  | condition =>
    refine occursIn_structural (Pattern.anchored_bare _) hn (fun s hs => ?_) h
    exact Pattern.isSome_structural_of_bare "if".toList hs (by decide)
  | _ => cases h

end Directive

end Stencil
