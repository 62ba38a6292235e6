import Mathlib.Data.List.Infix
import Stencil.Proofs.Nesting.Hygiene

/-!
# Passages

A reference is a tag that names a value by its path and says nothing else. A passage is a line of
text in which every tag is a reference: it opens and closes nothing, and all that becomes of it is
that its references are replaced. What stands in a reference need not be a path. `Text.IsContent`
says which texts an interpolation reads as a whole, and a key of a mapping can be a part of one.
-/

namespace Stencil

open Tag

namespace Text

/-- A text that does not end with a blank is blanks and at least one other character. -/
theorem exists_blanks_cons {w : Text} (hne : w ≠ [])
    (hlast : ∀ c ∈ w.getLast?, Stencil.isBlank c = false) :
    ∃ b d s, w = b ++ d :: s ∧ b.all Stencil.isBlank = true ∧ Stencil.isBlank d = false := by
  have hsplit := indent_append_trimStart w
  have hblank := all_indent w
  cases hw : trimStart w with
  | nil =>
    rw [hw, List.append_nil] at hsplit
    rw [hsplit] at hblank
    have hc := hlast _ (List.getLast?_eq_some_getLast hne)
    rw [List.all_eq_true.1 hblank _ (List.getLast_mem hne)] at hc
    cases hc
  | cons d s =>
    rw [hw] at hsplit
    exact ⟨indent w, d, s, hsplit.symm, hblank, head_trimStart w d (by rw [hw]; rfl)⟩

/-- Two characters that stand side by side in a text of two parts stand in one of the parts, or
one at the end of the first and one at the beginning of the second. -/
theorem pair_infix_append {c d : Char} {s t : Text} (h : [c, d] <:+: s ++ t) :
    [c, d] <:+: s ∨ [c, d] <:+: t ∨ s.getLast? = some c ∧ t.head? = some d := by
  rcases List.infix_append_iff.1 h with h | h | ⟨l₁, l₂, hl, hs, ht⟩
  · exact .inl h
  · exact .inr (.inl h)
  · cases l₁ with
    | nil => exact .inr (.inl (hl ▸ ht.isInfix))
    | cons x l₁ =>
      obtain rfl := (List.cons.inj hl).1
      cases l₁ with
      | nil =>
        obtain ⟨u, rfl⟩ := hs
        obtain ⟨v, rfl⟩ := ht
        obtain rfl : [d] = l₂ := (List.cons.inj hl).2
        exact .inr (.inr ⟨by simp, rfl⟩)
      | cons y l₁ =>
        obtain ⟨rfl, hnil⟩ : d = y ∧ l₁ = [] ∧ l₂ = [] := by simpa using hl
        rw [hnil.1] at hs
        exact .inl hs.isInfix

end Text

/-! ## References -/

/-- Whether the tag names a value by its path and says nothing else. -/
def Tag.isReference (tag : Tag) : Bool :=
  tag.source == enclose true tag.inner && LoopHeader.isPath tag.inner.trim

/-- What the tags of a text name if they are references. -/
def Text.references (t : Text) : List Text := (Pattern.span.tags t).map fun tag => tag.inner.trim

theorem isBlank_eq_false_of_isPathPart {c : Char} (h : isPathPart c = true) : isBlank c = false := by
  cases hb : isBlank c with
  | false => rfl
  | true => exact absurd h (by simp [(blank_separates hb).1])

theorem isPath_head_last {p : Text} (hp : LoopHeader.isPath p = true) :
    p ≠ [] ∧ (∀ c ∈ p.head?, isBlank c = false) ∧ ∀ c ∈ p.getLast?, isBlank c = false := by
  obtain ⟨hne, hall⟩ := LoopHeader.isPath_iff.1 hp
  have hblank : ∀ c ∈ p, isBlank c = false := fun c hc =>
    isBlank_eq_false_of_isPathPart (hall c hc)
  exact ⟨hne, fun c hc => hblank c (List.mem_of_mem_head? hc),
    fun c hc => hblank c (List.mem_of_mem_getLast? hc)⟩

/-- Blanks, a path and blanks hold nothing of a delimiter. -/
theorem not_isDelimiterPart_of_reference {b p e : Text} (hb : b.all isBlank)
    (hp : LoopHeader.isPath p = true) (he : e.all isBlank) :
    ∀ c ∈ b ++ (p ++ e), isDelimiterPart c = false := by
  intro c hc
  simp only [List.mem_append] at hc
  rcases hc with hc | hc | hc
  · exact not_isDelimiterPart_of_isBlank (List.all_eq_true.1 hb c hc)
  · exact not_isDelimiterPart_of_isPathPart ((LoopHeader.isPath_iff.1 hp).2 c hc)
  · exact not_isDelimiterPart_of_isBlank (List.all_eq_true.1 he c hc)

theorem exists_of_isReference {tag : Tag} (h : tag.isReference = true) :
    ∃ b p e, tag.source = enclose true (b ++ (p ++ e)) ∧ b.all isBlank = true ∧
      LoopHeader.isPath p = true ∧ e.all isBlank = true := by
  obtain ⟨hs, hp⟩ := Bool.and_eq_true_iff.1 h
  obtain ⟨b, e, hinner, hb, he⟩ := Text.exists_append_trim tag.inner
  refine ⟨b, _, e, ?_, hb, hp, he⟩
  rw [← hinner]
  exact eq_of_beq hs

theorem isReference_enclose {b p e argument : Text} (hb : b.all isBlank)
    (hp : LoopHeader.isPath p = true) (he : e.all isBlank) :
    Tag.isReference ⟨enclose true (b ++ (p ++ e)), argument⟩ = true := by
  obtain ⟨hne, hhead, hlast⟩ := isPath_head_last hp
  simp [Tag.isReference, Text.trim_append hb he hne hhead hlast, hp]

/-! ## Passages -/

/-- **A line of text with references in it**, and with no other tags. -/
structure Text.IsPassage (t : Text) : Prop where
  no_newline : '\n' ∉ t
  no_keyword : ¬ opening <:+: t
  isReference : ∀ tag ∈ Pattern.span.tags t, tag.isReference = true

instance (t : Text) : Decidable t.IsPassage :=
  decidable_of_iff (_ ∧ _ ∧ _) ⟨fun ⟨a, b, c⟩ => ⟨a, b, c⟩, fun ⟨a, b, c⟩ => ⟨a, b, c⟩⟩

namespace Text

variable {t : Text}

theorem IsPassage.tidy (ht : t.IsPassage) : isTidy t = true := by
  refine List.all_eq_true.2 fun tag htag => ?_
  obtain ⟨b, p, e, hs, hb, hp, he⟩ := exists_of_isReference (ht.isReference tag htag)
  have heq : tag = ⟨enclose true (b ++ (p ++ e)), tag.argument⟩ := by rw [← hs]
  rw [heq, Tag.isTidy_enclose]
  exact not_isDelimiterPart_of_reference hb hp he

theorem references_char {c : Char} {cs : Text} (h : Pattern.span (c :: cs) = none) :
    references (c :: cs) = references cs := by
  rw [references, Pattern.tags_char h, references]

theorem references_enclose {b p e : Text} (hb : b.all Stencil.isBlank)
    (hp : LoopHeader.isPath p = true) (he : e.all Stencil.isBlank) (hn : '\n' ∉ b ++ (p ++ e))
    (rest : Text) :
    references (enclose true (b ++ (p ++ e)) ++ rest) = p :: references rest := by
  obtain ⟨hne, hhead, hlast⟩ := isPath_head_last hp
  rw [references, tags_enclose (not_isDelimiterPart_of_reference hb hp he) hn]
  simp [references, trim_append hb he hne hhead hlast]

/-- **A passage** is read character by character and reference by reference. -/
theorem passage_induction {motive : Text → Prop} (nil : motive [])
    (char : ∀ c cs, Pattern.span (c :: cs) = none → IsPassage (c :: cs) → IsPassage cs →
      motive cs → motive (c :: cs))
    (reference : ∀ b p e rest, b.all Stencil.isBlank = true → LoopHeader.isPath p = true →
      e.all Stencil.isBlank = true → '\n' ∉ b ++ (p ++ e) → rest.IsPassage → motive rest →
      motive (enclose true (b ++ (p ++ e)) ++ rest))
    (ht : t.IsPassage) : motive t := by
  refine tidy_induction (motive := fun t => t.IsPassage → motive t) (fun _ => nil) ?_ ?_ t
    ht.no_newline ht.tidy ht
  · intro c cs hnone hn _ ih ht
    have hcs : IsPassage cs :=
      ⟨fun h => hn (List.mem_cons_of_mem c h),
        fun h => ht.no_keyword (List.infix_cons_iff.2 (.inr h)),
        fun tag h => ht.isReference tag (by rwa [Pattern.tags_char hnone])⟩
    exact char c cs hnone ht hcs (ih hcs)
  · intro braces inner rest hd hn hnr _ ih ht
    have htags : Pattern.span.tags (enclose braces inner ++ rest) = _ := tags_enclose hd hn rest
    have hrest : rest.IsPassage :=
      ⟨hnr, fun h => ht.no_keyword (h.trans (List.suffix_append _ rest).isInfix),
        fun tag h => ht.isReference tag (by rw [htags]; exact List.mem_cons_of_mem _ h)⟩
    obtain ⟨b, p, e, hs, hb, hp, he⟩ :=
      exists_of_isReference (ht.isReference _ (by rw [htags]; exact List.mem_cons_self))
    have hs : enclose braces inner = enclose true (b ++ (p ++ e)) := hs
    have hn' : '\n' ∉ b ++ (p ++ e) := by
      intro h
      have hm : '\n' ∈ enclose braces inner := by
        rw [hs]
        exact List.mem_append_left _ (List.mem_append_right _ h)
      exact ht.no_newline (List.mem_append_left _ hm)
    rw [hs]
    exact reference b p e rest hb hp he hn' hrest (ih hrest)

end Text

/-! ## Lines without keywords -/

theorem opened_eq_nil {t : Text} (h : ¬ opening <:+: t) : opened t = [] :=
  List.eq_nil_iff_forall_not_mem.2 fun _ hd => h (opening_infix_of_opened hd)

theorem closed_eq_nil {t : Text} (h : ¬ opening <:+: t) : closed t = [] :=
  List.eq_nil_iff_forall_not_mem.2 fun _ hd => h (opening_infix_of_closed hd)

/-- Without keywords a line holds no links, and all that becomes of it is that its values are put
in. -/
theorem rewrite_of_opening {engine : Engine} {context : Context} {line : Line}
    (hr : line.rendered = false) (h : ¬ opening <:+: line.text) :
    line.rewrite engine context =
      if Directive.interpolation.occursIn line.text then line.edit (context.interpolate line.text)
      else line := by
  have hkeyword : ∀ kw, (Pattern.keyword kw).occursIn line.text = false := fun kw =>
    Bool.eq_false_iff.2 fun ho => h (opening_infix_of_keyword ho)
  have hasset : Directive.asset.occursIn line.text = false := hkeyword _
  have hroute : Directive.route.occursIn line.text = false := hkeyword _
  simp only [Line.rewrite, hr, hasset, hroute, Bool.false_eq_true, if_false]

/-! ## What an interpolation reads -/

/-- A text that an interpolation reads from its first character to its last, with nothing in it for
a default. -/
structure Text.IsContent (w : Text) : Prop where
  head : ∃ c cs, w = c :: cs ∧ isPathPart c = true
  last : ∀ c ∈ w.getLast?, Stencil.isBlank c = false ∧ c ≠ '}'
  no_newline : '\n' ∉ w
  no_default : '=' ∉ w
  no_delimiter : ∀ d ∈ [openingBraces, opening, closingBraces], ¬ d <:+: w

/-- A text without braces holds no delimiter. -/
theorem not_infix_of_no_braces {w : Text} (ho : '{' ∉ w) (hc : '}' ∉ w) :
    ∀ d ∈ [openingBraces, opening, closingBraces], ¬ d <:+: w := by
  intro d hd hi
  simp only [List.mem_cons, List.not_mem_nil, or_false] at hd
  rcases hd with rfl | rfl | rfl
  · exact ho (hi.subset (by decide))
  · exact ho (hi.subset (by decide))
  · exact hc (hi.subset (by decide))

theorem isContent_of_isPath {p : Text} (hp : LoopHeader.isPath p = true) : p.IsContent := by
  obtain ⟨hne, hall⟩ := LoopHeader.isPath_iff.1 hp
  have hnot : ∀ c : Char, isPathPart c = false → c ∉ p := fun c hc hm =>
    absurd (hall c hm) (by simp [hc])
  obtain ⟨c, cs, rfl⟩ := List.exists_cons_of_ne_nil hne
  refine ⟨⟨c, cs, rfl, hall c (by simp)⟩, fun d hd => ⟨(isPath_head_last hp).2.2 d hd, ?_⟩,
    hnot _ (by decide), hnot _ (by decide),
    not_infix_of_no_braces (hnot _ (by decide)) (hnot _ (by decide))⟩
  rintro rfl
  exact hnot _ (by decide) (List.mem_of_mem_getLast? hd)

namespace Tag

/-- The delimiter does not follow on blanks within a text that holds none and does not end with a
part of one. -/
theorem blanksThen?_content {w rest : Text} (hne : w ≠ [])
    (hlast : ∀ c ∈ w.getLast?, isBlank c = false ∧ c ≠ '}') (hbraces : ¬ closingBraces <:+: w) :
    blanksThen? closingBraces (w ++ rest) = none := by
  rw [Option.eq_none_iff_forall_ne_some]
  intro tail htail
  obtain ⟨rfl, r, hr⟩ := blanksThen?_eq_some_iff.1 htail
  obtain ⟨b, d, s, rfl, hb, hd⟩ := Text.exists_blanks_cons hne fun c hc => (hlast c hc).1
  have hindent : Text.indent (b ++ d :: s ++ rest) = b := by
    rw [List.append_assoc]
    exact Text.indent_append hb (by simpa using hd)
  rw [hindent] at hr
  obtain ⟨rfl, hs⟩ : d = '}' ∧ s ++ rest = '}' :: r := by
    simpa [closingBraces, List.append_assoc] using hr
  cases s with
  | nil => exact (hlast '}' (by simp)).2 rfl
  | cons x s =>
    obtain ⟨rfl, -⟩ := List.cons.inj hs
    exact hbraces ⟨b, s, by simp [closingBraces]⟩

theorem argument?_content {w e rest : Text} (hne : w ≠ []) (hn : '\n' ∉ w)
    (hlast : ∀ c ∈ w.getLast?, isBlank c = false ∧ c ≠ '}') (hbraces : ¬ closingBraces <:+: w)
    (he : e.all isBlank) :
    argument? closingBraces (w ++ (e ++ (closingBraces ++ rest))) =
      some (w, e ++ closingBraces) := by
  induction w with
  | nil => exact absurd rfl hne
  | cons c cs ih =>
    have hc : c ≠ '\n' := fun h => hn (by simp [h])
    rw [List.cons_append, argument?, if_neg hc]
    cases cs with
    | nil =>
      have hblanks : blanksThen? closingBraces (e ++ (closingBraces ++ rest)) =
          some (e ++ closingBraces) := by
        refine blanksThen?_eq_some_iff.2 ⟨?_, rest, by simp⟩
        rw [Text.indent_append he (by simpa [closingBraces] using (by decide : isBlank '}' = false))]
      rw [List.nil_append, hblanks]
    | cons d ds =>
      have hlast' : ∀ x ∈ (d :: ds).getLast?, isBlank x = false ∧ x ≠ '}' := fun x hx =>
        hlast x (by rw [List.getLast?_cons_cons]; exact hx)
      have hbraces' : ¬ closingBraces <:+: d :: ds := fun h =>
        hbraces (List.infix_cons_iff.2 (.inr h))
      rw [blanksThen?_content (by simp) hlast' hbraces',
        ih (by simp) (fun h => hn (List.mem_cons_of_mem c h)) hlast' hbraces']
      rfl

end Tag

theorem interpolation_trimmed {b w e : Text} (hb : b.all isBlank) (hne : w ≠ [])
    (hhead : ∀ c ∈ w.head?, isBlank c = false) (hn : '\n' ∉ w)
    (hlast : ∀ c ∈ w.getLast?, isBlank c = false ∧ c ≠ '}') (hbraces : ¬ closingBraces <:+: w)
    (he : e.all isBlank) (rest : Text) :
    Pattern.interpolation (enclose true (b ++ (w ++ e)) ++ rest) =
      some ⟨enclose true (b ++ (w ++ e)), w⟩ := by
  have hsplit : enclose true (b ++ (w ++ e)) ++ rest =
      openingBraces ++ (b ++ (w ++ (e ++ (closingBraces ++ rest)))) := by
    simp [enclose, start, stop]
  have hhead' : ∀ c ∈ (w ++ (e ++ (closingBraces ++ rest))).head?, isBlank c = false := by
    obtain ⟨c, cs, rfl⟩ := List.exists_cons_of_ne_nil hne
    exact hhead
  rw [hsplit, Pattern.interpolation]
  simp only [Text.after?_append, Option.bind_eq_bind, Option.bind_some, withArgument?,
    Text.indent_append hb hhead', Text.trimStart_append hb hhead', Nat.not_lt_zero, if_false,
    argument?_content hne hn hlast hbraces he]
  simp [enclose, start, stop]

/-- **An interpolation reads** what stands between blanks in its tag. -/
theorem interpolation_content {b w e : Text} (hb : b.all isBlank) (hw : w.IsContent)
    (he : e.all isBlank) (rest : Text) :
    Pattern.interpolation (enclose true (b ++ (w ++ e)) ++ rest) =
      some ⟨enclose true (b ++ (w ++ e)), w⟩ := by
  obtain ⟨c, cs, rfl, hc⟩ := hw.head
  refine interpolation_trimmed hb (by simp) ?_ hw.no_newline hw.last (hw.no_delimiter _ (by simp))
    he rest
  simpa using isBlank_eq_false_of_isPathPart hc

theorem splitOnce?_of_not_mem {sep : Char} {t : Text} (h : sep ∉ t) :
    Text.splitOnce? sep t = none := by
  induction t with
  | nil => rfl
  | cons c cs ih =>
    have hc : c ≠ sep := fun e => h (by simp [e])
    rw [Text.splitOnce?, if_neg hc, ih fun hm => h (List.mem_cons_of_mem c hm)]
    rfl

/-- The value that an interpolation without a default shows. -/
def displayed : Option Value → Text
  | none | some .null => unknownKey
  | some value => value.display

theorem evaluate_content {context : Context} {w : Text} (hw : w.IsContent) :
    context.evaluate w = displayed (context.get? w) := by
  obtain ⟨c, cs, hcs, hc⟩ := hw.head
  have hhead : ∀ x ∈ w.head?, isBlank x = false := by
    rw [hcs]
    intro x hx
    obtain rfl : c = x := by simpa using hx
    exact isBlank_eq_false_of_isPathPart hc
  have htrim : Text.trim w = w := by
    simpa using Text.trim_append (b := []) (e := []) rfl rfl (by rw [hcs]; simp) hhead
      fun x hx => (hw.last x hx).1
  have hargument : Interpolation.ofArgument w = ⟨w, none⟩ := by
    rw [Interpolation.ofArgument, splitOnce?_of_not_mem hw.no_default, htrim]
  rw [Context.evaluate, hargument]
  simp only [Context.present?, Option.getD_none]
  cases context.get? w with
  | none => rfl
  | some value => cases value <;> rfl

section Interpolate

variable {context : Context}

/-- Behind a character that begins no tag, nothing but the rest of the text changes. -/
theorem interpolation_char {c : Char} {cs : Text} (h : Pattern.span (c :: cs) = none)
    (hn : '\n' ∉ c :: cs) : Pattern.interpolation (c :: cs) = none := by
  rw [← Option.not_isSome_iff_eq_none] at h ⊢
  intro hs
  obtain ⟨d, r, hr, hi⟩ := (Pattern.isSome_interpolation_iff hn).1 hs
  exact h ((Pattern.isSome_span_iff hn).2
    ⟨true, d :: r, hr, hi.trans (List.suffix_cons d r).isInfix⟩)

theorem interpolate_char {c : Char} {cs : Text} (h : Pattern.span (c :: cs) = none)
    (hn : '\n' ∉ c :: cs) : context.interpolate (c :: cs) = c :: context.interpolate cs :=
  Pattern.replace_char (interpolation_char h hn)

theorem interpolate_content {b w e : Text} (hb : b.all isBlank) (hw : w.IsContent)
    (he : e.all isBlank) (rest : Text) :
    context.interpolate (enclose true (b ++ (w ++ e)) ++ rest) =
      context.evaluate w ++ context.interpolate rest :=
  Pattern.replace_tag Pattern.anchored_interpolation ⟨enclose true (b ++ (w ++ e)), w⟩
    (interpolation_content hb hw he rest)

end Interpolate

/-! ## What a tag with content holds -/

/-- A tag that holds content holds no other delimiter. -/
theorem opening_infix_of_content {b w e rest : Text} (hb : b.all isBlank) (hw : w.IsContent)
    (he : e.all isBlank) (h : opening <:+: enclose true (b ++ (w ++ e)) ++ rest) :
    opening <:+: rest := by
  obtain ⟨c, cs, rfl, hc⟩ := hw.head
  have hblank : ∀ {b : Text}, b.all isBlank = true → '%' ∉ b := fun hb hm =>
    absurd (List.all_eq_true.1 hb _ hm) (by decide)
  have hsplit : enclose true (b ++ (c :: cs ++ e)) ++ rest =
      (openingBraces ++ b) ++ (c :: cs ++ ((e ++ closingBraces) ++ rest)) := by
    simp [enclose, start, stop]
  rw [hsplit] at h
  rcases Text.pair_infix_append h with h | h | ⟨-, h⟩
  · refine absurd (h.subset (show '%' ∈ opening by decide)) ?_
    simp [openingBraces, hblank hb]
  · rcases Text.pair_infix_append h with h | h | ⟨-, h⟩
    · exact absurd h (hw.no_delimiter opening (by simp))
    · rcases Text.pair_infix_append h with h | h | ⟨h, -⟩
      · refine absurd (h.subset (show '%' ∈ opening by decide)) ?_
        simp [closingBraces, hblank he]
      · exact h
      · simp [closingBraces] at h
    · cases e with
      | nil => simp [closingBraces] at h
      | cons x e =>
        obtain rfl : x = '%' := by simpa using h
        exact absurd (hblank he) (by simp)
  · obtain rfl : c = '%' := by simpa using h
    exact absurd hc (by decide)

/-- A tag that holds other content than the word that numbers the iterations does not number them.
-/
theorem index_content {b w e : Text} (hb : b.all isBlank) (hw : w.IsContent) (he : e.all isBlank)
    (hne : w ≠ "index".toList) (rest : Text) :
    Pattern.index (enclose true (b ++ (w ++ e)) ++ rest) = none := by
  rw [Option.eq_none_iff_forall_ne_some]
  intro tag htag
  obtain ⟨c, cs, rfl, hc⟩ := hw.head
  have hsplit : enclose true (b ++ (c :: cs ++ e)) ++ rest =
      openingBraces ++ (b ++ (c :: cs ++ (e ++ (closingBraces ++ rest)))) := by
    simp [enclose, start, stop]
  have htrim : Text.trimStart (b ++ (c :: cs ++ (e ++ (closingBraces ++ rest)))) =
      c :: cs ++ (e ++ (closingBraces ++ rest)) :=
    Text.trimStart_append hb (by simpa using isBlank_eq_false_of_isPathPart hc)
  rw [hsplit] at htag
  unfold Pattern.index at htag
  simp only [Text.after?_append, Option.bind_eq_bind, Option.bind_some, htrim,
    Option.bind_eq_some_iff] at htag
  obtain ⟨r, hr, tail, htail, -⟩ := htag
  rcases List.append_eq_append_iff.1 (Text.after?_eq_some_iff.1 hr) with
    ⟨x, hx, hrest⟩ | ⟨x, hx, rfl⟩
  · -- the content is a start of the word, and a blank or the delimiter stands behind it
    cases x with
    | nil => exact hne (by simpa using hx.symm)
    | cons y ys =>
      have hy : y ∈ "index".toList := by rw [hx]; simp
      have hno : ∀ z ∈ "index".toList, isBlank z = false ∧ z ≠ '}' := by decide
      cases e with
      | nil =>
        obtain ⟨rfl, -⟩ := List.cons.inj hrest
        exact (hno _ hy).2 rfl
      | cons z e =>
        obtain ⟨rfl, -⟩ := List.cons.inj hrest
        have hblank := List.all_eq_true.1 he z (by simp)
        rw [(hno z hy).1] at hblank
        cases hblank
  · -- the word is a start of the content, which ends before a blank or the delimiter
    by_cases hnil : x = []
    · exact hne (by rw [hx, hnil, List.append_nil])
    · have hnone : blanksThen? closingBraces (x ++ (e ++ (closingBraces ++ rest))) = none := by
        refine blanksThen?_content hnil (fun d hd => hw.last d ?_) fun hi => ?_
        · rw [hx, List.getLast?_append_of_ne_nil _ hnil]
          exact hd
        · refine hw.no_delimiter closingBraces (by simp) ?_
          rw [hx]
          exact hi.trans (List.suffix_append _ x).isInfix
      rw [hnone] at htail
      cases htail

/-- Behind its first brace, a tag that holds content holds no two opening braces. -/
theorem not_infix_openingBraces {b w e : Text} (hb : b.all isBlank) (hw : w.IsContent)
    (he : e.all isBlank) : ¬ openingBraces <:+: '{' :: (b ++ (w ++ (e ++ closingBraces))) := by
  obtain ⟨c, cs, rfl, hc⟩ := hw.head
  have hblank : ∀ {b : Text}, b.all isBlank = true → '{' ∉ b := fun hb hm =>
    absurd (List.all_eq_true.1 hb _ hm) (by decide)
  have hbehind : '{' ∉ e ++ closingBraces := by simp [closingBraces, hblank he]
  intro h
  rcases List.infix_cons_iff.1 h with ⟨r, hr⟩ | h
  · -- neither a blank nor the content begins with a brace
    have hr : b ++ (c :: cs ++ (e ++ closingBraces)) = '{' :: r := (List.cons.inj hr).2.symm
    cases b with
    | nil =>
      obtain ⟨rfl, -⟩ := List.cons.inj hr
      exact absurd hc (by decide)
    | cons d b =>
      obtain ⟨rfl, -⟩ := List.cons.inj hr
      exact hblank hb (by simp)
  · rcases Text.pair_infix_append h with h | h | ⟨h, -⟩
    · exact hblank hb (h.subset (by decide))
    · rcases Text.pair_infix_append h with h | h | ⟨-, h⟩
      · exact hw.no_delimiter openingBraces (by simp) h
      · exact hbehind (h.subset (by decide))
      · exact hbehind (List.mem_of_mem_head? h)
    · exact hblank hb (List.mem_of_mem_getLast? h)

end Stencil
