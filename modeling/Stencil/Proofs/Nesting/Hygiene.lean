import Stencil.Proofs.Expansion.Keys
import Stencil.Proofs.Expansion.Numbering
import Stencil.Proofs.Nesting.Basic

/-!
# Variables that cannot be mistaken

Loops bind no variables: an iteration rewrites the text of its body. The rewritten body is nested
as the body was (`wellNested_expand`) if the variables are kept apart from everything they could be
mistaken for. `Nesting.Hygienic` says so of a tree and a set of variables; it is kept by every
iteration (`hygienic_expand`), so that loops inside loops can be expanded in turn.
-/

namespace Stencil

open Tag

/-- The texts from which loop variables are kept apart in a line. -/
structure Line.IsHygienic (V : List Text) (line : Line) : Prop where
  no_newline : '\n' ∉ line.text
  tidy : Text.isTidy line.text = true
  apart : ∀ tag ∈ Pattern.span.tags line.text, ∀ p ∈ tag.paths,
    ∀ s ∈ Context.laterSegments p, s ∉ V

/-- A loop whose variable is one of those kept apart, or can be mistaken for nothing. -/
structure LoopHeader.IsHygienic (V : List Text) (header : LoopHeader) : Prop where
  variable_mem : header.variableName ∈ V ∨ '.' ∈ header.variableName
  apart : ∀ s ∈ Context.laterSegments header.collection, s ∉ V

/-- An iteration of such a loop. -/
structure Iteration.IsHygienic (V : List Text) (it : Iteration) : Prop where
  proper : it.IsProper
  header : it.header.IsHygienic V
  key_apart : it.key ∉ V

/-! ## Lines in an iteration -/

theorem exists_enclose_of_isTag {t : Text} (ht : Text.isTidy t = true) (hn : '\n' ∉ t)
    (h : isTag t = true) : ∃ braces inner, t = enclose braces inner ∧
      (∀ c ∈ inner, isDelimiterPart c = false) ∧ '\n' ∉ inner := by
  obtain ⟨tag, htag, hs⟩ : ∃ tag, Pattern.span t = some tag ∧ tag.source = t := by
    unfold isTag at h
    cases hspan : Pattern.span t with
    | none => simp [hspan] at h
    | some tag => exact ⟨tag, rfl, by simpa [hspan] using h⟩
  obtain ⟨braces, inner, -, rfl, -⟩ := Pattern.exists_of_span_eq_some htag
  have hmem : (⟨enclose braces inner, []⟩ : Tag) ∈ Pattern.span.tags t := by
    have htags := Pattern.tags_tag Pattern.anchored_span _
      (by rw [List.append_nil, hs]; exact htag)
    rw [List.append_nil, hs] at htags
    rw [htags]
    simp
  refine ⟨braces, inner, hs.symm, Tag.isTidy_enclose.1 (List.all_eq_true.1 ht _ hmem), ?_⟩
  intro e
  exact hn (by rw [← hs]; simp [enclose, e])

theorem isTag_enclose {braces : Bool} {inner : Text}
    (hd : ∀ c ∈ inner, isDelimiterPart c = false) (hn : '\n' ∉ inner) :
    isTag (enclose braces inner) = true := by
  have h := Pattern.span_enclose braces hd hn []
  rw [List.append_nil] at h
  simp [isTag, h]

/-- Tags that begin with a keyword begin with the delimiter of such tags. -/
theorem opening_infix_of_occursIn {p : Pattern} {t : Text} (hp : Pattern.Anchored p)
    (hk : ∀ b tag, p b = some tag → ∃ kw x, Tag.keyword? kw b = some x)
    (h : p.occursIn t = true) : opening <:+: t := by
  obtain ⟨a, b, rfl, hs⟩ := (Pattern.occursIn_iff hp).1 h
  obtain ⟨tag, htag⟩ := Option.isSome_iff_exists.1 hs
  obtain ⟨kw, x, hx⟩ := hk b tag htag
  obtain ⟨rfl, c, -, hc⟩ := keyword?_start hx
  exact ⟨a, c ++ kw ++ x.2, by rw [hc]; simp⟩

theorem opening_infix_of_keyword {kw t : Text} (h : (Pattern.keyword kw).occursIn t = true) :
    opening <:+: t :=
  opening_infix_of_occursIn (Pattern.anchored_keyword kw) (fun _ _ hb =>
    let ⟨x, hx, _⟩ := Option.bind_eq_some_iff.1 hb
    ⟨kw, x, hx⟩) h

theorem opening_infix_of_bare {kw t : Text} (h : (Pattern.bare kw).occursIn t = true) :
    opening <:+: t :=
  opening_infix_of_occursIn (Pattern.anchored_bare kw) (fun _ _ hb =>
    let ⟨x, hx, _⟩ := Option.bind_eq_some_iff.1 hb
    ⟨kw, x, hx⟩) h

theorem opening_infix_of_labelled {kw t : Text} (h : (Pattern.labelled kw).occursIn t = true) :
    opening <:+: t :=
  opening_infix_of_occursIn (Pattern.anchored_labelled kw) (fun _ _ hb =>
    let ⟨x, hx, _⟩ := Option.bind_eq_some_iff.1 hb
    ⟨kw, x, hx⟩) h

theorem opening_infix_of_opened {t : Text} {d : Directive} (h : d ∈ opened t) :
    opening <:+: t := by
  have hd := (List.mem_filter.1 h).1
  have hocc := (List.mem_filter.1 h).2
  cases d with
  | asset | route | interpolation => simp at hd
  | _ => exact opening_infix_of_keyword hocc

theorem opening_infix_of_closed {t : Text} {d : Directive} (h : d ∈ closed t) :
    opening <:+: t := by
  have hd := (List.mem_filter.1 h).1
  have hocc := (List.mem_filter.1 h).2
  cases d with
  | block => exact opening_infix_of_labelled hocc
  | loop | condition => exact opening_infix_of_bare hocc
  | _ => simp at hd

theorem percent_mem_of_opening {t : Text} (h : opening <:+: t) : '%' ∈ t :=
  h.subset (by decide)

theorem not_percent_mem_braces {inner : Text} (hd : ∀ c ∈ inner, isDelimiterPart c = false) :
    '%' ∉ enclose true inner := by
  intro h
  have hinner : '%' ∉ inner := fun hm => absurd (hd _ hm) (by decide)
  simp [enclose, start, stop, openingBraces, closingBraces, hinner] at h

/-- A text that is one tag and holds the delimiter of tags with a keyword is such a tag. -/
theorem exists_enclose_of_opening {t : Text} (ht : Text.isTidy t = true) (hn : '\n' ∉ t)
    (htag : isTag t = true) (ho : opening <:+: t) :
    ∃ inner, t = enclose false inner ∧ (∀ c ∈ inner, isDelimiterPart c = false) ∧
      '\n' ∉ inner := by
  obtain ⟨braces, inner, rfl, hd, hni⟩ := exists_enclose_of_isTag ht hn htag
  cases braces with
  | true => exact absurd (percent_mem_of_opening ho) (not_percent_mem_braces hd)
  | false => exact ⟨inner, rfl, hd, hni⟩

namespace Iteration

variable {it : Iteration} {V : List Text}

/-- The text of a line in an iteration. -/
def expandText (it : Iteration) (depth : Nat) (t : Text) : Text :=
  if depth = 0 then it.numbered (it.resolveText t) else it.resolveText t

theorem text_expandLine {depth : Nat} {line : Line} (h : line.rendered = false) :
    (it.expandLine depth line).text = it.expandText depth line.text := by
  unfold expandLine
  rw [if_neg (by simp [h])]
  by_cases heq : it.expandText depth line.text = line.text
  · rw [heq]
    exact congrArg Line.text (if_pos heq)
  · exact congrArg Line.text (if_neg heq)

@[simp] theorem rendered_expandLine (depth : Nat) (line : Line) :
    (it.expandLine depth line).rendered = line.rendered := by
  unfold expandLine
  split
  · rfl
  · simp only []
    split <;> split <;> rfl

@[simp] theorem glued_expandLine (depth : Nat) (line : Line) :
    (it.expandLine depth line).glued = line.glued := by
  unfold expandLine
  split
  · rfl
  · simp only []
    split <;> split <;> rfl

theorem expandLine_of_text_eq {depth : Nat} {line : Line}
    (h : it.expandText depth line.text = line.text) : it.expandLine depth line = line := by
  unfold expandLine
  split
  · rfl
  · exact if_pos h

/-- What an iteration makes of a text, whether it numbers it or not. -/
theorem expandText_cases (it : Iteration) (depth : Nat) (t : Text) :
    it.expandText depth t = it.numbered (it.resolveText t) ∨
      it.expandText depth t = it.resolveText t := by
  unfold expandText
  split
  · exact .inl rfl
  · exact .inr rfl

theorem variable_not_mem_laterSegments (hit : it.IsHygienic V) {p : Text}
    (h : ∀ s ∈ Context.laterSegments p, s ∉ V) :
    it.header.variableName ∉ Context.laterSegments p := by
  intro hm
  rcases hit.header.variable_mem with hv | hdot
  · exact h _ hm hv
  · exact Text.not_mem_of_mem_splitOn (List.mem_of_mem_tail hm) hdot

theorem fits_of_isHygienic (hit : it.IsHygienic V) {line : Line} (hl : line.IsHygienic V) :
    it.Fits line.text where
  proper := hit.proper
  no_newline := hl.no_newline
  tidy := hl.tidy
  spares tag htag p hp := variable_not_mem_laterSegments hit (hl.apart tag htag p hp)

/-- **A line stays hygienic.** -/
theorem isHygienic_expandLine (hit : it.IsHygienic V) {line : Line} (hl : line.IsHygienic V)
    (depth : Nat) : (it.expandLine depth line).IsHygienic V := by
  cases hr : line.rendered with
  | true =>
    have heq : it.expandLine depth line = line := by
      unfold expandLine
      rw [if_pos hr]
    rw [heq]
    exact hl
  | false =>
    have hfits := fits_of_isHygienic hit hl
    have hsp := hfits.spares
    have hn := hfits.newline_not_mem
    have htidy := hfits.tidy_resolveText
    have happart : ∀ tag ∈ Pattern.span.tags (it.resolveText line.text), ∀ p ∈ tag.paths,
        ∀ s ∈ Context.laterSegments p, s ∉ V := by
      intro tag' htag' p' hp' s hs
      obtain ⟨tag, htag, p, hp, rfl⟩ :=
        exists_of_mem_paths_resolveText hit.proper hl.no_newline hl.tidy hsp htag' hp'
      rcases mem_laterSegments_resolved hit.proper (hsp tag htag p hp) hs with hm | ⟨hm, -⟩ | rfl
      · exact hl.apart tag htag p hp s hm
      · exact hit.header.apart s hm
      · exact hit.key_apart
    have htext : (it.expandLine depth line).text = _ := text_expandLine hr
    rcases expandText_cases it depth line.text with heq | heq <;> rw [heq] at htext
    · constructor <;> rw [htext]
      · exact newline_not_mem_numbered hn
      · exact isTidy_numbered hn htidy
      · exact fun tag htag => happart tag (mem_tags_of_mem_tags_numbered hn htidy htag)
    · constructor <;> rw [htext]
      · exact hn
      · exact htidy
      · exact happart

/-! ## What a line opens and closes in an iteration -/

theorem opened_resolveText {t : Text} (ht : it.Fits t) : opened (it.resolveText t) = opened t := by
  refine List.filter_congr fun d hd => ?_
  simp only [List.mem_cons, List.not_mem_nil, or_false] at hd
  rcases hd with rfl | rfl | rfl | rfl | rfl <;>
    exact ht.renames.occursIn_keyword (by decide)

theorem closed_resolveText_subset {t : Text} (ht : it.Fits t) {d : Directive}
    (h : d ∈ closed (it.resolveText t)) : d ∈ closed t := by
  have hren := ht.renames
  obtain ⟨hd, hocc⟩ := List.mem_filter.1 h
  refine List.mem_filter.2 ⟨hd, ?_⟩
  simp only [List.mem_cons, List.not_mem_nil, or_false] at hd
  rcases hd with rfl | rfl | rfl
  · exact hren.occursIn_labelled (fun _ _ hq => hq.2.1) (by decide) hocc
  · exact (hren.occursIn_bare (by decide)).symm.trans hocc
  · exact (hren.occursIn_bare (by decide)).symm.trans hocc

theorem opened_numbered_subset {t : Text} (hn : '\n' ∉ t) {d : Directive}
    (h : d ∈ opened (it.numbered t)) : d ∈ opened t := by
  obtain ⟨hd, hocc⟩ := List.mem_filter.1 h
  refine List.mem_filter.2 ⟨hd, ?_⟩
  simp only [List.mem_cons, List.not_mem_nil, or_false] at hd
  rcases hd with rfl | rfl | rfl | rfl | rfl <;>
    exact keyword_of_numbered (by decide) hn hocc

theorem closed_numbered_subset {t : Text} (hn : '\n' ∉ t) (ht : Text.isTidy t = true)
    {d : Directive} (h : d ∈ closed (it.numbered t)) : d ∈ closed t := by
  obtain ⟨hd, hocc⟩ := List.mem_filter.1 h
  refine List.mem_filter.2 ⟨hd, ?_⟩
  simp only [List.mem_cons, List.not_mem_nil, or_false] at hd
  rcases hd with rfl | rfl | rfl
  · exact labelled_of_numbered (by decide) hn ht hocc
  · exact bare_of_numbered (by decide) hn hocc
  · exact bare_of_numbered (by decide) hn hocc

theorem numbered_enclose_keyword {inner : Text} (hd : ∀ c ∈ inner, isDelimiterPart c = false)
    (hn : '\n' ∉ inner) : it.numbered (enclose false inner) = enclose false inner := by
  rcases @numbered_enclose it false inner [] hd hn (by simp) with ⟨h, -⟩ | h
  · cases h
  · simpa using h

/-- **A plain line stays plain.** -/
theorem isPlain_expandLine (hit : it.IsHygienic V) {line : Line}
    (hl : line.rendered = false → line.IsHygienic V) (h : line.IsPlain) (depth : Nat) :
    (it.expandLine depth line).IsPlain := by
  cases hr : line.rendered with
  | true => exact .inl (by rw [rendered_expandLine, hr])
  | false =>
    replace hl := hl hr
    obtain ⟨ho, hc⟩ := h.resolve_left (by simp [hr])
    have hfits := fits_of_isHygienic hit hl
    have hn := hfits.newline_not_mem
    have htidy := hfits.tidy_resolveText
    have ho' : opened (it.resolveText line.text) = [] := by rw [opened_resolveText hfits, ho]
    have hc' : closed (it.resolveText line.text) = [] := by
      refine List.eq_nil_iff_forall_not_mem.2 fun d hd => ?_
      have := closed_resolveText_subset hfits hd
      simp [hc] at this
    refine .inr ?_
    rw [text_expandLine hr]
    rcases expandText_cases it depth line.text with heq | heq <;> rw [heq]
    · refine ⟨List.eq_nil_iff_forall_not_mem.2 fun d hd => ?_,
        List.eq_nil_iff_forall_not_mem.2 fun d hd => ?_⟩
      · have := opened_numbered_subset hn hd
        simp [ho'] at this
      · have := closed_numbered_subset hn htidy hd
        simp [hc'] at this
    · exact ⟨ho', hc'⟩

/-- What an iteration makes of a tag that opens a body. -/
theorem exists_expandText_of_opens {line : Line} (hl : it.Fits line.text) {d : Directive}
    (h : line.Opens d) (depth : Nat) :
    ∃ inner inner', line.text = enclose false inner ∧ '\n' ∉ inner ∧
      (∀ c ∈ inner, isDelimiterPart c = false) ∧
      it.resolveText line.text = enclose false inner' ∧ '\n' ∉ inner' ∧
      (∀ c ∈ inner', isDelimiterPart c = false) ∧
      it.expandText depth line.text = it.resolveText line.text := by
  obtain ⟨inner, he, hd, hn⟩ := exists_enclose_of_opening hl.tidy hl.no_newline h.isTag
    (opening_infix_of_opened (d := d) (by simp [h.opened]))
  have hn' := hl.newline_not_mem
  obtain ⟨inner', he', hd', -⟩ := (he ▸ hl.renames).enclose hd
  have he' : it.resolveText line.text = enclose false inner' := by
    rw [he]
    exact he'
  have hni : '\n' ∉ inner' := fun e => hn' (by rw [he']; simp [enclose, e])
  refine ⟨inner, inner', he, hn, hd, he', hni, hd', ?_⟩
  rcases expandText_cases it depth line.text with heq | heq
  · rw [heq, he', numbered_enclose_keyword hd' hni]
  · exact heq

/-- **A tag that opens a body** stays one. -/
theorem opens_expandLine {line : Line} (hl : it.Fits line.text) {d : Directive}
    (h : line.Opens d) (depth : Nat) : (it.expandLine depth line).Opens d := by
  obtain ⟨inner, inner', -, -, -, he', hn', hd', htext⟩ := exists_expandText_of_opens hl h depth
  have ht := (text_expandLine h.not_rendered).trans htext
  refine ⟨by rw [rendered_expandLine, h.not_rendered], ?_, ?_, ?_⟩ <;> rw [ht]
  · rw [opened_resolveText hl, h.opened]
  · refine List.eq_nil_iff_forall_not_mem.2 fun e hd => ?_
    have := closed_resolveText_subset hl hd
    simp [h.closed] at this
  · rw [he']
    exact isTag_enclose hd' hn'

/-- **A tag that closes a body** stays as it is, if the variable is no segment of its label. -/
theorem expandLine_of_closes (hit : it.IsHygienic V) {line : Line} (hl : line.IsHygienic V)
    {d : Directive} (h : line.Closes d)
    (hlabel : ∀ tag ∈ Pattern.span.tags line.text, ∀ p ∈ tag.paths,
      ∀ s ∈ Context.segments p, s ∉ V) (depth : Nat) : it.expandLine depth line = line := by
  obtain ⟨inner, he, hd, hn⟩ := exists_enclose_of_opening hl.tidy hl.no_newline h.isTag
    (opening_infix_of_closed (d := d) (by simp [h.closed]))
  have hself : it.resolveText line.text = line.text := by
    refine resolveText_eq_self fun tag htag p hp hm => ?_
    rcases hit.header.variable_mem with hv | hdot
    · exact hlabel tag htag p hp _ hm hv
    · exact Text.not_mem_of_mem_splitOn hm hdot
  refine expandLine_of_text_eq ?_
  rcases expandText_cases it depth line.text with heq | heq <;> rw [heq, hself]
  rw [he, numbered_enclose_keyword hd hn]

/-- **The header of an inner loop** stays hygienic. -/
theorem isHygienic_header_expandLine (hit : it.IsHygienic V) {line : Line}
    (hl : line.IsHygienic V) (h : line.Opens .loop) (depth : Nat)
    (hh : ∀ header, line.header? = some header → header.IsHygienic V) :
    ∀ header, (it.expandLine depth line).header? = some header → header.IsHygienic V := by
  intro header' hheader'
  have hfits := fits_of_isHygienic hit hl
  have hsp := hfits.spares
  obtain ⟨inner, inner', he, hn, hd, -, -, -, htext⟩ := exists_expandText_of_opens hfits h depth
  unfold Line.header? at hheader' hh
  rw [text_expandLine h.not_rendered, htext, he] at hheader'
  rw [he] at hsp hh
  obtain ⟨header, hheader, hvar, hcol⟩ :=
    exists_header_of_resolveText hit.proper hd hn hsp hheader'
  have hhyg := hh header hheader
  refine ⟨?_, ?_⟩
  · rcases hvar with heq | hdot
    · rw [heq]
      exact hhyg.variable_mem
    · exact .inr hdot
  · intro s hs
    rcases hcol with heq | ⟨heq, -⟩ <;> rw [heq] at hs
    · exact hhyg.apart s hs
    · rcases mem_laterSegments_resolved hit.proper
        (variable_not_mem_laterSegments hit hhyg.apart) hs with hm | ⟨hm, -⟩ | rfl
      · exact hhyg.apart s hm
      · exact hit.header.apart s hm
      · exact hit.key_apart

end Iteration

/-! ## Trees in an iteration -/

namespace Nesting

/-- **The variables `V` are kept apart** from everything in the tree that they could be mistaken
for. In finished output they are not looked for. -/
def Hygienic (V : List Text) : Nesting → Prop
  | done => True
  | text line rest => (line.rendered = false → line.IsHygienic V) ∧ rest.Hygienic V
  | span d opening body closing rest =>
    opening.IsHygienic V ∧
      (d = .loop → ∀ header, opening.header? = some header → header.IsHygienic V) ∧
      body.Hygienic V ∧ closing.IsHygienic V ∧
      (∀ tag ∈ Pattern.span.tags closing.text, ∀ p ∈ tag.paths,
        ∀ s ∈ Context.segments p, s ∉ V) ∧ rest.Hygienic V

variable {it : Iteration} {V : List Text} (hit : it.IsHygienic V)
include hit

/-- **An iteration leaves lines well nested.** -/
theorem wellNested_expand {n : Nesting} (hw : n.WellNested) (hh : n.Hygienic V) (depth : Nat) :
    (n.expand it depth).WellNested := by
  induction n generalizing depth with
  | done => trivial
  | text line rest ih =>
    exact ⟨Iteration.isPlain_expandLine hit hh.1 hw.1 _, ih hw.2 hh.2 _⟩
  | span d opening body closing rest ihb ihr =>
    obtain ⟨ho, hb, hc, hr⟩ := hw
    obtain ⟨hho, -, hhb, hhc, hlabel, hhr⟩ := hh
    refine ⟨Iteration.opens_expandLine (Iteration.fits_of_isHygienic hit hho) ho _, ihb hb hhb _,
      ?_, ihr hr hhr _⟩
    rw [Iteration.expandLine_of_closes hit hhc hc hlabel]
    exact hc

/-- **An iteration leaves a tree hygienic.** -/
theorem hygienic_expand {n : Nesting} (hw : n.WellNested) (hh : n.Hygienic V) (depth : Nat) :
    (n.expand it depth).Hygienic V := by
  induction n generalizing depth with
  | done => trivial
  | text line rest ih =>
    refine ⟨fun hr => ?_, ih hw.2 hh.2 _⟩
    rw [Iteration.rendered_expandLine] at hr
    exact Iteration.isHygienic_expandLine hit (hh.1 hr) _
  | span d opening body closing rest ihb ihr =>
    obtain ⟨ho, hb, hc, hr⟩ := hw
    obtain ⟨hho, hheader, hhb, hhc, hlabel, hhr⟩ := hh
    refine ⟨Iteration.isHygienic_expandLine hit hho _, ?_, ihb hb hhb _, ?_, ?_, ihr hr hhr _⟩
    · rintro rfl
      exact Iteration.isHygienic_header_expandLine hit hho ho _ (hheader rfl)
    · rw [Iteration.expandLine_of_closes hit hhc hc hlabel]
      exact hhc
    · rw [Iteration.expandLine_of_closes hit hhc hc hlabel]
      exact hlabel

end Nesting

end Stencil
