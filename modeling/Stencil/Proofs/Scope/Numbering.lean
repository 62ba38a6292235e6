import Stencil.Proofs.Scope.Resolution

/-!
# Numbering the iterations of a passage

A reference to `index` is the number of the iteration, in the lines that are not inside a loop
within the body, and only if no loop around it has `index` for its variable. Numbering takes
references out of a passage and leaves the others, so that it does not matter whether paths are
resolved before or after it (`resolveText_numbered`). `Line.numberedIn` says what a line is in the
iteration of a loop, without a word about the loops around that one, and `rewrite_numberedIn` that
an iteration of an outer loop leaves it so.
-/

namespace Stencil

open Tag

/-! ## Lines with another text -/

namespace Line

/-- The line with another text; it counts as edited unless the text is its own. -/
def retext (line : Line) (t : Text) : Line := if t = line.text then line else line.edit t

variable {line : Line}

@[simp] theorem text_retext (line : Line) (t : Text) : (line.retext t).text = t := by
  unfold retext
  split
  · next h => exact h.symm
  · rfl

@[simp] theorem rendered_retext (line : Line) (t : Text) :
    (line.retext t).rendered = line.rendered := by
  unfold retext
  split <;> rfl

@[simp] theorem edit_retext (line : Line) (t u : Text) : (line.retext t).edit u = line.edit u := by
  unfold retext
  split <;> rfl

@[simp] theorem retext_self (line : Line) : line.retext line.text = line := if_pos rfl

theorem retext_of_ne {t : Text} (h : t ≠ line.text) : line.retext t = line.edit t := if_neg h

end Line

/-- What stands for a reference to `index` in the iteration at a position. -/
def Text.numberedAt (position : Nat) (t : Text) : Text :=
  Pattern.index.replace (fun _ => Text.ofNat (position + 1)) t

/-- The line inside loops with these variables, in the iteration of the innermost one at a position:
its references to `index` are the number of the iteration, unless `index` is a variable. -/
def Line.numberedIn (names : List Text) (position : Nat) (line : Line) : Line :=
  if names = [] ∨ "index".toList ∈ names then line
  else line.retext (Text.numberedAt position line.text)

namespace Line

variable {line : Line} {names : List Text} {position : Nat}

theorem numberedIn_nil : line.numberedIn [] position = line := if_pos (.inl rfl)

theorem numberedIn_of_mem (h : "index".toList ∈ names) : line.numberedIn names position = line :=
  if_pos (.inr h)

theorem numberedIn_of_not_mem (hne : names ≠ []) (h : "index".toList ∉ names) :
    line.numberedIn names position = line.retext (Text.numberedAt position line.text) :=
  if_neg (not_or.2 ⟨hne, h⟩)

end Line

/-! ## References to the number -/

/-- **A reference to the word** that numbers the iterations is found as such. -/
theorem index_reference {b e : Text} (hb : b.all isBlank) (he : e.all isBlank) (rest : Text) :
    Pattern.index (enclose true (b ++ ("index".toList ++ e)) ++ rest) =
      some ⟨enclose true (b ++ ("index".toList ++ e)), []⟩ := by
  have hsplit : enclose true (b ++ ("index".toList ++ e)) ++ rest =
      openingBraces ++ (b ++ ("index".toList ++ (e ++ (closingBraces ++ rest)))) := by
    simp [enclose, start, stop]
  have hhead : ∀ c ∈ ("index".toList ++ (e ++ (closingBraces ++ rest))).head?,
      isBlank c = false := by
    intro c hc
    obtain rfl : 'i' = c := by simpa using hc
    decide
  have hindent := Text.indent_append hb hhead
  have htrim := Text.trimStart_append hb hhead
  have htail : blanksThen? closingBraces (e ++ (closingBraces ++ rest)) =
      some (e ++ closingBraces) := by
    refine blanksThen?_eq_some_iff.2 ⟨?_, rest, by simp⟩
    rw [Text.indent_append he (by simpa [closingBraces] using (by decide : isBlank '}' = false))]
  rw [hsplit]
  unfold Pattern.index
  simp only [Text.after?_append, Option.bind_eq_bind, Option.bind_some, htrim, hindent, htail]
  simp [enclose, start, stop]

namespace Iteration

variable {it it' : Iteration} {p : Text}

/-- A path that becomes the word that numbers the iterations has been it, and stays. -/
theorem eq_of_resolved_eq_index (hl : Context.OnlyLeads it.header.variableName p)
    (h : it.resolved p = "index".toList) :
    p = "index".toList ∧ it.header.variableName ≠ "index".toList := by
  obtain ⟨root, rest, hs, -⟩ := Context.exists_segments p
  by_cases hroot : root = it.header.variableName
  · subst hroot
    have hdot : '.' ∈ it.resolved p := by
      rw [resolved_of_leads hs (hl.rest_ne hs)]
      split
      · exact dot_mem_element
      · exact List.mem_append_left _ dot_mem_element
    rw [h] at hdot
    exact absurd hdot (by decide)
  · have hstay := resolved_of_not_leads hl (by rw [hs]; simpa using hroot)
    obtain rfl : p = "index".toList := hstay.symm.trans h
    refine ⟨rfl, fun hv => hroot ?_⟩
    rw [hv]
    have hone : Context.segments "index".toList = ["index".toList] := by decide
    exact (List.cons.inj (hs.symm.trans hone)).1

theorem numbered_reference {b e : Text} (hb : b.all isBlank) (he : e.all isBlank) (rest : Text) :
    it.numbered (enclose true (b ++ ("index".toList ++ e)) ++ rest) =
      it.number ++ it.numbered rest :=
  Pattern.replace_tag Pattern.anchored_index ⟨enclose true (b ++ ("index".toList ++ e)), []⟩
    (index_reference hb he rest)

theorem resolveText_digits {ds : Text} (hds : ∀ c ∈ ds, c.isDigit = true) (t : Text) :
    it.resolveText (ds ++ t) = ds ++ it.resolveText t := by
  refine Pattern.replace_append_of_none fun a y he hy => ?_
  obtain ⟨c, cs, rfl⟩ := List.exists_cons_of_ne_nil hy
  exact span_digit (hds c (by simp [he])) (cs ++ t)

theorem not_opening_infix_numbered {t : Text} (h : ¬ opening <:+: t) :
    ¬ opening <:+: it.numbered t := by
  rintro ⟨a, u, ht⟩
  have hdigits : ∀ c ∈ opening, c.isDigit = false := by decide
  obtain ⟨a, u, rfl, -⟩ := infix_of_numbered hdigits (by decide)
    (show it.numbered t = a ++ (opening ++ u) by rw [← ht, List.append_assoc])
  exact h ⟨a, u, by simp⟩

/-- **Numbering leaves a passage**, with some of its references. -/
theorem isPassage_numbered (it : Iteration) {t : Text} (ht : t.IsPassage) :
    (it.numbered t).IsPassage ∧ ∀ p ∈ Text.references (it.numbered t), p ∈ t.references := by
  have htags : ∀ tag ∈ Pattern.span.tags (it.numbered t), tag ∈ Pattern.span.tags t :=
    fun tag => mem_tags_of_mem_tags_numbered ht.no_newline ht.tidy
  refine ⟨⟨newline_not_mem_numbered ht.no_newline, not_opening_infix_numbered ht.no_keyword,
    fun tag h => ht.isReference tag (htags tag h)⟩, fun p hp => ?_⟩
  obtain ⟨tag, htag, rfl⟩ := List.mem_map.1 hp
  exact List.mem_map_of_mem (htags tag htag)

namespace Suits

variable {t : Text} (h : it.Suits t)
include h

theorem numbered : it.Suits (it'.numbered t) :=
  have hpassage : (it'.numbered t).IsPassage ∧ _ := it'.isPassage_numbered h.passage
  ⟨h.identifier, hpassage.1, fun p hp => h.leads p (hpassage.2 p hp),
    fun p hp => h.content p (hpassage.2 p hp)⟩

theorem not_opening_infix_expandText (depth : Nat) : ¬ opening <:+: it.expandText depth t := by
  rcases expandText_cases it depth t with heq | heq <;> rw [heq]
  · exact not_opening_infix_numbered h.not_opening_infix
  · exact h.not_opening_infix

/-- **Resolving and numbering commute**, unless the variable is the word that numbers. -/
theorem resolveText_numbered (hv : it.header.variableName ≠ "index".toList) :
    it.resolveText (it'.numbered t) = it'.numbered (it.resolveText t) := by
  induction h using Suits.induction with
  | nil => rfl
  | char c cs hnone h hcs ih =>
    have htext : it.resolveText (c :: cs) = _ := resolveText_char hnone
    have hn := h.newline_not_mem
    rw [htext] at hn ⊢
    rw [numbered_char hnone h.passage.no_newline,
      resolveText_char (span_numbered_char hnone h.passage.no_newline), ih,
      numbered_char (span_resolveText h hcs hnone) hn]
  | reference b p e rest hb hp he hn hleads hcontent htext h _ ih =>
    rw [htext]
    by_cases hindex : p = "index".toList
    · subst hindex
      have hstay : it.resolved "index".toList = "index".toList := by
        refine resolved_of_not_leads hleads fun hhead => hv ?_
        exact (Option.some.inj hhead).symm
      rw [hstay, numbered_reference hb he, numbered_reference hb he,
        resolveText_digits number_isDigit, ih]
    · have hne : it.resolved p ≠ "index".toList := fun hr =>
        hindex (eq_of_resolved_eq_index hleads hr).1
      rw [numbered_content hb (isContent_of_isPath hp) he hindex,
        numbered_content hb hcontent he hne,
        resolveText_enclose (not_isDelimiterPart_of_reference hb hp he) hn,
        resolveTag_reference h.identifier hb hp he hleads.not_later, ih]

/-- A resolved passage has no reference to number, if the variable is the word that numbers. -/
theorem numbered_of_variable (hv : it.header.variableName = "index".toList) :
    it'.numbered (it.resolveText t) = it.resolveText t :=
  h.numbered_resolveText it' fun p hp hr => (eq_of_resolved_eq_index (h.leads p hp) hr).2 hv

/-! ## Lines in an iteration -/

variable {line : Line} (hr : line.rendered = false) {engine : Engine} {context bound : Context}
  (hb : it.Binds context bound)
include hr hb

/-- **A resolved text shows** in the context what the text shows once the variable is bound,
whichever line it is put into. -/
theorem rewrite_retext :
    (line.retext (it.resolveText t)).rewrite engine context =
      (line.retext t).rewrite engine bound := by
  rw [rewrite_of_opening (by simpa using hr) (by simpa using h.not_opening_infix),
    rewrite_of_opening (by simpa using hr) (by simpa using h.passage.no_keyword)]
  simp only [Line.text_retext, Line.edit_retext, h.occursIn_interpolation,
    h.interpolate_resolveText hb]
  cases ho : Directive.interpolation.occursIn t with
  | true => rfl
  | false => rw [h.resolveText_of_not_interpolation ho]

/-- It does not matter if the line has been resolved before its references are numbered. -/
theorem rewrite_retext_numbered (ht : t = line.text)
    (hv : it.header.variableName ≠ "index".toList) :
    ((line.retext (it.resolveText t)).retext (it'.numbered (it.resolveText t))).rewrite engine
        context =
      (line.retext (it'.numbered t)).rewrite engine bound := by
  have hn : it.Suits (it'.numbered t) := h.numbered
  rw [← h.resolveText_numbered hv, ← hn.rewrite_retext hr hb,
    rewrite_of_opening (by simpa using hr) (by simpa using hn.not_opening_infix),
    rewrite_of_opening (by simpa using hr) (by simpa using hn.not_opening_infix)]
  simp only [Line.text_retext, Line.edit_retext, hn.occursIn_interpolation]
  cases ho : Directive.interpolation.occursIn (it'.numbered t) with
  | true => rfl
  | false =>
    -- all references of the line have been numbered, or there was none
    rw [if_neg (by simp), if_neg (by simp), hn.resolveText_of_not_interpolation ho]
    cases ho' : Directive.interpolation.occursIn t with
    | false =>
      rw [h.resolveText_of_not_interpolation ho', ht, Line.retext_self]
    | true =>
      have hne : it'.numbered t ≠ line.text := fun heq => by
        rw [heq, ← ht, ho'] at ho
        cases ho
      have hne' : it'.numbered t ≠ it.resolveText t := fun heq => by
        rw [heq, h.occursIn_interpolation, ho'] at ho
        cases ho
      rw [Line.retext_of_ne (by simpa using hne'), Line.edit_retext, Line.retext_of_ne hne]

end Suits

section Line

variable {line : Line} (h : it.Suits line.text) (hr : line.rendered = false) {engine : Engine}
  {context bound : Context} (hb : it.Binds context bound)
include h hr hb

omit h hb in
theorem expandLine_eq_retext (depth : Nat) :
    it.expandLine depth line = line.retext (it.expandText depth line.text) :=
  if_neg (by simp [hr])

/-- A line inside loops within the body shows in the context what it shows once the variable is
bound. -/
theorem rewrite_expandLine_inside {depth : Nat} (hd : depth ≠ 0) :
    (it.expandLine depth line).rewrite engine context = line.rewrite engine bound := by
  rw [expandLine_eq_retext hr, expandText, if_neg hd, h.rewrite_retext hr hb, Line.retext_self]

/-- **A line of the body** shows in the context what it shows once the variable is bound and the
references to `index` are the number of the iteration. -/
theorem rewrite_expandLine :
    (it.expandLine 0 line).rewrite engine context =
      (line.numberedIn [it.header.variableName] it.position).rewrite engine bound := by
  rw [expandLine_eq_retext hr, expandText, if_pos rfl]
  by_cases hv : it.header.variableName = "index".toList
  · rw [h.numbered_of_variable hv, h.rewrite_retext hr hb, Line.retext_self,
      Line.numberedIn_of_mem (List.mem_singleton.2 hv.symm)]
  · have hnot : "index".toList ∉ [it.header.variableName] := fun hm =>
      hv (List.mem_singleton.1 hm).symm
    rw [← h.resolveText_numbered hv, h.numbered.rewrite_retext hr hb,
      Line.numberedIn_of_not_mem (List.cons_ne_nil _ _) hnot]
    rfl

/-- A line inside loops within the body keeps the number that it has there. -/
theorem rewrite_numberedIn_inside (engine : Engine) {names : List Text} (hnames : names ≠ [])
    (position : Nat) :
    ((it.expandLine names.length line).numberedIn names position).rewrite engine context =
      (line.numberedIn (names ++ [it.header.variableName]) position).rewrite engine bound := by
  have hnumbered : ∀ t, Text.numberedAt position t = { it with position }.numbered t := fun _ => rfl
  have hdepth : names.length ≠ 0 := mt List.length_eq_zero_iff.1 hnames
  by_cases hin : "index".toList ∈ names
  · rw [Line.numberedIn_of_mem hin, Line.numberedIn_of_mem (List.mem_append_left _ hin),
      rewrite_expandLine_inside h hr hb hdepth]
  · rw [Line.numberedIn_of_not_mem hnames hin, expandLine_eq_retext hr, expandText, if_neg hdepth,
      Line.text_retext, hnumbered]
    by_cases hv : it.header.variableName = "index".toList
    · have hself := Line.retext_self (line.retext (it.resolveText line.text))
      rw [Line.text_retext] at hself
      rw [h.numbered_of_variable hv, hself, h.rewrite_retext hr hb, Line.retext_self,
        Line.numberedIn_of_mem (List.mem_append_right _ (List.mem_singleton.2 hv.symm))]
    · have hnot : "index".toList ∉ names ++ [it.header.variableName] := fun hm =>
        (List.mem_append.1 hm).elim hin fun hm => hv (List.mem_singleton.1 hm).symm
      rw [h.rewrite_retext_numbered hr hb rfl hv, ← hnumbered,
        Line.numberedIn_of_not_mem (by simp) hnot]

end Line

end Iteration

end Stencil
