import Stencil.Proofs.Scope.Binding
import Stencil.Proofs.Scope.Passage

/-!
# A passage in an iteration

An iteration resolves the path in each reference of a passage and leaves everything else. What is
put in may be a key of a mapping, which is any text; as long as an interpolation reads it as a whole
(`Text.IsContent`), the new text shows in the context what the passage shows once the variable is
bound (`interpolate_resolveText`), and it holds no tags but its references.
-/

namespace Stencil

open Tag

namespace Iteration

variable {it : Iteration}

/-! ## Reading a tag word by word -/

/-- **A word is resolved** as a path. One that cannot begin a path is not looked at, and does not
begin with the variable either. -/
theorem resolveFrom_word (hv : it.header.variableName.IsIdentifier) {w t : Text} {c : Char}
    (hw : LoopHeader.isPath w = true) (hl : it.header.variableName ∉ Context.laterSegments w)
    (hc : isPathPart c = false) :
    it.resolveFrom (.plain false) (w ++ c :: t) =
      it.resolved w ++ it.resolveFrom (.plain false) (c :: t) := by
  rw [resolveFrom_stretch (LoopHeader.isPath_iff.1 hw).2 hc, stretched_eq_resolved hv hl]

theorem resolveTag_reference (hv : it.header.variableName.IsIdentifier) {b p e : Text}
    (hb : b.all isBlank) (hp : LoopHeader.isPath p = true) (he : e.all isBlank)
    (hl : it.header.variableName ∉ Context.laterSegments p) :
    it.resolveTag (enclose true (b ++ (p ++ e))) = enclose true (b ++ (it.resolved p ++ e)) := by
  have htail := separates_append (separates_of_isBlank he) (separates_stop true)
  obtain ⟨c, cs, hcs⟩ := List.exists_cons_of_ne_nil (l := e ++ stop true) (by simp [stop_ne_nil])
  have hrest : it.resolveFrom (.plain false) (e ++ stop true) = e ++ stop true := by
    have h : it.resolveFrom (.plain false) (e ++ stop true ++ []) = _ :=
      resolveFrom_separators htail []
    rwa [List.append_nil, resolveFrom, List.append_nil] at h
  have hsplit : ∀ x, enclose true (b ++ (x ++ e)) = (start true ++ b) ++ (x ++ (e ++ stop true)) := by
    intro x
    simp [enclose]
  rw [hcs] at hrest htail
  rw [resolveTag, hsplit, hsplit, resolveFrom_separators
    (separates_append (separates_start true) (separates_of_isBlank hb)), hcs,
    resolveFrom_word hv hp hl (htail c (by simp)).1, hrest]

/-- A tag that holds other content than the word that numbers the iterations stays. -/
theorem numbered_content {b w e : Text} (hb : b.all isBlank) (hw : w.IsContent)
    (he : e.all isBlank) (hne : w ≠ "index".toList) (rest : Text) :
    it.numbered (enclose true (b ++ (w ++ e)) ++ rest) =
      enclose true (b ++ (w ++ e)) ++ it.numbered rest := by
  refine Pattern.replace_append_of_none fun a y heq hy => ?_
  cases a with
  | nil =>
    obtain rfl : enclose true (b ++ (w ++ e)) = y := heq
    exact index_content hb hw he hne rest
  | cons c a =>
    cases hi : Pattern.index (y ++ rest) with
    | none => rfl
    | some tag =>
      obtain ⟨inner, r, -, -, hr⟩ := Pattern.exists_of_index_eq_some hi
      have htail : '{' :: (b ++ (w ++ (e ++ closingBraces))) = a ++ y := by
        simpa [enclose, start, stop, openingBraces] using (List.cons.inj heq).2
      -- the other tag begins with two braces, both before the end of this one
      obtain ⟨d, y, rfl⟩ := List.exists_cons_of_ne_nil hy
      obtain ⟨rfl, hy'⟩ : d = '{' ∧ y ++ rest = '{' :: (inner ++ (closingBraces ++ r)) := by
        simpa [enclose, start, stop, openingBraces] using hr
      cases y with
      | nil =>
        have hend : '{' :: (b ++ (w ++ (e ++ closingBraces))) =
            '{' :: (b ++ (w ++ (e ++ ['}']))) ++ ['}'] := by simp [closingBraces]
        rw [hend] at htail
        exact absurd (List.append_inj' htail rfl).2 (by decide)
      | cons d y =>
        obtain ⟨rfl, -⟩ := List.cons.inj hy'
        exact absurd ⟨a, y, by rw [htail]; simp [openingBraces]⟩
          (not_infix_openingBraces hb hw he)

/-! ## Resolving a passage -/

/-- A passage whose paths the iteration can resolve: the variable stands nowhere but at the
beginning, and what becomes of a path is read as a whole. -/
structure Suits (it : Iteration) (t : Text) : Prop where
  identifier : it.header.variableName.IsIdentifier
  passage : t.IsPassage
  leads : ∀ p ∈ t.references, Context.OnlyLeads it.header.variableName p
  content : ∀ p ∈ t.references, (it.resolved p).IsContent

namespace Suits

variable {t : Text}

/-- **A passage that an iteration suits** is read character by character and reference by
reference. -/
theorem induction {motive : (t : Text) → it.Suits t → Prop} (nil : ∀ h, motive [] h)
    (char : ∀ c cs, Pattern.span (c :: cs) = none → ∀ (h : it.Suits (c :: cs)) (hcs : it.Suits cs),
      motive cs hcs → motive (c :: cs) h)
    (reference : ∀ b p e rest, b.all isBlank = true → LoopHeader.isPath p = true →
      e.all isBlank = true → '\n' ∉ b ++ (p ++ e) →
      Context.OnlyLeads it.header.variableName p → (it.resolved p).IsContent →
      it.resolveText (enclose true (b ++ (p ++ e)) ++ rest) =
        enclose true (b ++ (it.resolved p ++ e)) ++ it.resolveText rest →
      ∀ (h : it.Suits (enclose true (b ++ (p ++ e)) ++ rest)) (hrest : it.Suits rest),
      motive rest hrest → motive (enclose true (b ++ (p ++ e)) ++ rest) h)
    (h : it.Suits t) : motive t h := by
  refine Text.passage_induction (motive := fun t => ∀ h : it.Suits t, motive t h) nil ?_ ?_
    h.passage h
  · intro c cs hnone hccs hcs ih h
    have hrefs := Text.references_char hnone
    have hsuits : it.Suits cs :=
      ⟨h.identifier, hcs, fun p hp => h.leads p (hrefs ▸ hp), fun p hp => h.content p (hrefs ▸ hp)⟩
    exact char c cs hnone h hsuits (ih hsuits)
  · intro b p e rest hb hp he hn hrest ih h
    have hrefs := Text.references_enclose hb hp he hn rest
    have hmem : p ∈ Text.references (enclose true (b ++ (p ++ e)) ++ rest) := by
      rw [hrefs]
      exact List.mem_cons_self
    have hsub : ∀ q ∈ Text.references rest,
        q ∈ Text.references (enclose true (b ++ (p ++ e)) ++ rest) := fun q hq => by
      rw [hrefs]
      exact List.mem_cons_of_mem _ hq
    have hsuits : it.Suits rest :=
      ⟨h.identifier, hrest, fun q hq => h.leads q (hsub q hq), fun q hq => h.content q (hsub q hq)⟩
    have htext : it.resolveText (enclose true (b ++ (p ++ e)) ++ rest) =
        enclose true (b ++ (it.resolved p ++ e)) ++ it.resolveText rest := by
      rw [resolveText_enclose (not_isDelimiterPart_of_reference hb hp he) hn,
        resolveTag_reference h.identifier hb hp he (h.leads p hmem).not_later]
    exact reference b p e rest hb hp he hn (h.leads p hmem) (h.content p hmem) htext h hsuits
      (ih hsuits)

theorem head?_resolveText (h : it.Suits t) : (it.resolveText t).head? = t.head? := by
  induction h using Suits.induction with
  | nil => rfl
  | char c cs hnone => rw [resolveText_char hnone]; rfl
  | reference b p e rest _ _ _ _ _ _ htext => rw [htext]; rfl

theorem newline_not_mem (h : it.Suits t) : '\n' ∉ it.resolveText t := by
  induction h using Suits.induction with
  | nil => exact List.not_mem_nil
  | char c cs hnone h _ ih =>
    rw [resolveText_char hnone]
    rintro (_ | ⟨_, hm⟩)
    · exact h.passage.no_newline (by simp)
    · exact ih hm
  | reference b p e rest _ _ _ hn _ hcontent htext _ _ ih =>
    have hdelimiters : '\n' ∉ start true ∧ '\n' ∉ stop true := by decide
    simp only [List.mem_append, not_or] at hn
    rw [htext]
    simp only [enclose, List.mem_append, not_or]
    exact ⟨⟨⟨hdelimiters.1, hn.1, hcontent.no_newline, hn.2.2⟩, hdelimiters.2⟩, ih⟩

theorem not_opening_infix (h : it.Suits t) : ¬ opening <:+: it.resolveText t := by
  induction h using Suits.induction with
  | nil => exact fun h => absurd (List.infix_nil.1 h) (by decide)
  | char c cs hnone h hcs ih =>
    rw [resolveText_char hnone]
    intro hi
    rcases List.infix_cons_iff.1 hi with ⟨r, hr⟩ | hi
    · -- what follows on the brace is what follows on it in the passage
      obtain ⟨rfl, hcs'⟩ : '{' = c ∧ '%' :: r = it.resolveText cs := by simpa [opening] using hr
      have hhead := head?_resolveText hcs
      rw [← hcs'] at hhead
      obtain ⟨d, ds, rfl⟩ : ∃ d ds, cs = d :: ds := by
        cases cs with
        | nil => cases hhead
        | cons d ds => exact ⟨d, ds, rfl⟩
      obtain rfl : '%' = d := by simpa using hhead
      exact h.passage.no_keyword ⟨[], ds, rfl⟩
    · exact ih hi
  | reference b p e rest hb _ he _ _ hcontent htext _ _ ih =>
    rw [htext]
    exact fun hi => ih (opening_infix_of_content hb hcontent he hi)

/-- Without a closing brace there is no reference. -/
theorem resolveText_of_not_closing (h : it.Suits t) (hc : ¬ closingBraces <:+: t) :
    it.resolveText t = t := by
  induction h using Suits.induction with
  | nil => rfl
  | char c cs hnone _ _ ih =>
    rw [resolveText_char hnone, ih fun hi => hc (List.infix_cons_iff.2 (.inr hi))]
  | reference b p e rest =>
    refine absurd ?_ hc
    exact ⟨openingBraces ++ (b ++ (p ++ e)), rest, by simp [enclose, start, stop]⟩

/-- **No tag arises** where none stood. -/
theorem span_resolveText {c : Char} {cs : Text} (h : it.Suits (c :: cs)) (hcs : it.Suits cs)
    (hnone : Pattern.span (c :: cs) = none) : Pattern.span (c :: it.resolveText cs) = none := by
  have htext : it.resolveText (c :: cs) = _ := resolveText_char hnone
  have hn' := h.newline_not_mem
  have ho' := h.not_opening_infix
  rw [htext] at hn' ho'
  rw [← Option.not_isSome_iff_eq_none] at hnone ⊢
  intro hs
  obtain ⟨braces, r, hr, hi⟩ := (Pattern.isSome_span_iff hn').1 hs
  cases braces with
  | false => exact ho' ⟨[], r, hr.symm⟩
  | true =>
    obtain ⟨rfl, hcs'⟩ : c = '{' ∧ it.resolveText cs = '{' :: r := by
      simpa [start, openingBraces] using hr
    have hhead := head?_resolveText hcs
    rw [hcs'] at hhead
    obtain ⟨d, ds, rfl⟩ : ∃ d ds, cs = d :: ds := by
      cases cs with
      | nil => cases hhead
      | cons d ds => exact ⟨d, ds, rfl⟩
    obtain rfl : '{' = d := by simpa using hhead
    -- two braces stand in the passage, so that no others close them
    have hclosing : ¬ closingBraces <:+: ds := fun hi =>
      hnone ((Pattern.isSome_span_iff h.passage.no_newline).2 ⟨true, ds, rfl, hi⟩)
    have hstay := resolveText_of_not_closing hcs fun hi => by
      rcases List.infix_cons_iff.1 hi with ⟨x, hx⟩ | hi
      · simp [closingBraces] at hx
      · exact hclosing hi
    rw [hstay] at hcs'
    obtain rfl : ds = r := (List.cons.inj hcs').2
    exact hclosing hi

/-! ## What the references show -/

/-- **What a resolved passage shows** in the context is what the passage shows once the variable is
bound. -/
theorem interpolate_resolveText (h : it.Suits t) {context bound : Context}
    (hb : it.Binds context bound) :
    context.interpolate (it.resolveText t) = bound.interpolate t := by
  induction h using Suits.induction with
  | nil => rfl
  | char c cs hnone h hcs ih =>
    have htext : it.resolveText (c :: cs) = _ := resolveText_char hnone
    have hn := h.newline_not_mem
    rw [htext] at hn ⊢
    rw [interpolate_char (span_resolveText h hcs hnone) hn,
      interpolate_char hnone h.passage.no_newline, ih]
  | reference b p e rest hb' hp he _ hleads hcontent htext _ _ ih =>
    rw [htext, interpolate_content hb' hcontent he, evaluate_content hcontent,
      interpolate_content hb' (isContent_of_isPath hp) he,
      evaluate_content (isContent_of_isPath hp), hb.get?_resolved hleads, ih]

theorem occursIn_interpolation (h : it.Suits t) :
    Directive.interpolation.occursIn (it.resolveText t) = Directive.interpolation.occursIn t := by
  have htag : ∀ {t : Text} {tag : Tag}, Pattern.interpolation t = some tag →
      Directive.interpolation.occursIn t = true := fun h =>
    Pattern.occursIn_tag Pattern.anchored_interpolation h
  induction h using Suits.induction with
  | nil => rfl
  | char c cs hnone h hcs ih =>
    have htext : it.resolveText (c :: cs) = _ := resolveText_char hnone
    have hn := h.newline_not_mem
    rw [htext] at hn ⊢
    exact (Pattern.occursIn_char (interpolation_char (span_resolveText h hcs hnone) hn)).trans
      (ih.trans (Pattern.occursIn_char (interpolation_char hnone h.passage.no_newline)).symm)
  | reference b p e rest hb hp he _ _ hcontent htext =>
    rw [htext, htag (interpolation_content hb hcontent he _),
      htag (interpolation_content hb (isContent_of_isPath hp) he _)]

/-- A resolved passage in which no reference numbers the iterations stays. -/
theorem numbered_resolveText (it' : Iteration) (h : it.Suits t)
    (hi : ∀ p ∈ t.references, it.resolved p ≠ "index".toList) :
    it'.numbered (it.resolveText t) = it.resolveText t := by
  revert hi
  induction h using Suits.induction with
  | nil => exact fun _ => rfl
  | char c cs hnone h hcs ih =>
    intro hi
    have htext : it.resolveText (c :: cs) = _ := resolveText_char hnone
    have hn := h.newline_not_mem
    rw [Text.references_char hnone] at hi
    rw [htext] at hn ⊢
    rw [numbered_char (span_resolveText h hcs hnone) hn, ih hi]
  | reference b p e rest hb hp he hn _ hcontent htext _ _ ih =>
    intro hi
    rw [Text.references_enclose hb hp he hn] at hi
    rw [htext, numbered_content hb hcontent he (hi p (by simp)),
      ih fun q hq => hi q (List.mem_cons_of_mem p hq)]

/-! ## Paths that become paths -/

/-- **A passage becomes a passage** if its paths become paths. -/
theorem isPassage_resolveText (h : it.Suits t)
    (hp : ∀ p ∈ t.references, LoopHeader.isPath (it.resolved p) = true) :
    (it.resolveText t).IsPassage ∧
      (it.resolveText t).references = t.references.map it.resolved := by
  have htags : Text.references (it.resolveText t) = t.references.map it.resolved ∧
      ∀ tag ∈ Pattern.span.tags (it.resolveText t), tag.isReference = true := by
    revert hp
    induction h using Suits.induction with
    | nil => exact fun _ => ⟨rfl, fun _ h => by cases h⟩
    | char c cs hnone h hcs ih =>
      intro hp
      have hnone' := span_resolveText h hcs hnone
      rw [Text.references_char hnone] at hp ⊢
      rw [resolveText_char hnone, Text.references_char hnone', Pattern.tags_char hnone']
      exact ih hp
    | reference b p e rest hb hp' he hn _ hcontent htext _ _ ih =>
      intro hp
      rw [Text.references_enclose hb hp' he hn] at hp ⊢
      have hpath := hp p (by simp)
      have hn' : '\n' ∉ b ++ (it.resolved p ++ e) := by
        simp only [List.mem_append, not_or] at hn ⊢
        exact ⟨hn.1, hcontent.no_newline, hn.2.2⟩
      obtain ⟨hrefs, htags⟩ := ih fun q hq => hp q (List.mem_cons_of_mem p hq)
      rw [htext, Text.references_enclose hb hpath he hn', hrefs, Text.tags_enclose
        (not_isDelimiterPart_of_reference hb hpath he) hn']
      refine ⟨rfl, fun tag htag => ?_⟩
      rcases List.mem_cons.1 htag with rfl | htag
      · exact isReference_enclose hb hpath he
      · exact htags tag htag
  exact ⟨⟨h.newline_not_mem, h.not_opening_infix, htags.2⟩, htags.1⟩

/-- Without a reference nothing is resolved. -/
theorem resolveText_of_not_interpolation (h : it.Suits t)
    (ho : Directive.interpolation.occursIn t = false) : it.resolveText t = t := by
  revert ho
  induction h using Suits.induction with
  | nil => exact fun _ => rfl
  | char c cs hnone h hcs ih =>
    intro ho
    have hchar := Pattern.occursIn_char (interpolation_char hnone h.passage.no_newline)
    rw [resolveText_char hnone, ih (hchar.symm.trans ho)]
  | reference b p e rest hb hp he =>
    intro ho
    have hcontent := interpolation_content hb (isContent_of_isPath hp) he rest
    have hocc : Directive.interpolation.occursIn (enclose true (b ++ (p ++ e)) ++ rest) = true :=
      Pattern.occursIn_tag Pattern.anchored_interpolation hcontent
    rw [ho] at hocc
    cases hocc

end Suits

end Iteration

end Stencil
