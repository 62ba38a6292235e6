import Stencil.Loop.Expansion
import Stencil.Proofs.Expansion.Rephrasing
import Stencil.Proofs.Tag.Span

/-!
# Numbering the iterations

The interpolation that numbers the iterations becomes a number, which is a rephrasing of the text
(`rephrases_numbered`): a tag with a keyword and an argument, or with a keyword alone, is there
before and after. In a tidy text the interpolation is a span of its own, so that nothing but this
span goes away (`mem_tags_of_mem_tags_numbered`), and what holds no digit was there before
(`infix_of_numbered`).
-/

namespace Stencil

/-- The characters between the delimiters of the tag are no parts of delimiters. -/
theorem not_isDelimiterPart_of_isBlank {c : Char} (h : isBlank c = true) :
    isDelimiterPart c = false :=
  Tag.not_isDelimiterPart_of (by decide) h

theorem isPathPart_of_isDigit {c : Char} (h : c.isDigit = true) : isPathPart c = true := by
  have ha : c.isAlphanum = true := by simp [Char.isAlphanum, h]
  have hc : c.toNat < 0x80 := by
    simp only [Char.isDigit, Bool.and_eq_true, decide_eq_true_eq] at h
    have h2 : c.toNat ≤ 57 := h.2
    omega
  simp [isPathPart, isAlphanumeric_of_isAlphanum hc ha]

theorem isPathStart_eq_false_of_isDigit {c : Char} (h : c.isDigit = true) :
    isPathStart c = false := by
  have key : ∀ n < 58, 48 ≤ n → isPathStart (Char.ofNat n) = false := by decide
  simp only [Char.isDigit, Bool.and_eq_true, decide_eq_true_eq] at h
  have hle : 48 ≤ c.toNat := h.1
  have hlt : c.toNat ≤ 57 := h.2
  rw [← Char.ofNat_toNat c]
  exact key c.toNat (by omega) hle

theorem span_digit {c : Char} (hc : c.isDigit = true) (cs : Text) :
    Pattern.span (c :: cs) = none :=
  Pattern.span_eq_none_of_ne (fun e => absurd hc (by rw [e]; decide)) cs

theorem Text.isDigit_of_mem_ofNat {n : Nat} {c : Char} (h : c ∈ Text.ofNat n) :
    c.isDigit = true :=
  Nat.isDigit_of_mem_toDigits (by decide) (by decide) h

theorem Text.ofNat_ne_nil (n : Nat) : Text.ofNat n ≠ [] := Nat.toDigits_ne_nil

namespace Pattern

open Tag

theorem exists_blanks_of_index_eq_some {t : Text} {tag : Tag} (h : index t = some tag) :
    ∃ b e rest, b.all isBlank ∧ e.all isBlank ∧
      tag = ⟨enclose true (b ++ "index".toList ++ e), []⟩ ∧ t = tag.source ++ rest := by
  unfold index at h
  simp only [Option.bind_eq_bind, Option.bind_eq_some_iff, Option.pure_def,
    Option.some.injEq] at h
  obtain ⟨inner, hi, rest, hr, tail, ht, rfl⟩ := h
  obtain rfl := Text.after?_eq_some_iff.1 hi
  obtain ⟨rfl, rest', ht'⟩ := Tag.blanksThen?_eq_some_iff.1 ht
  refine ⟨Text.indent inner, Text.indent rest, rest', Text.all_indent _, Text.all_indent _, ?_, ?_⟩
  · simp [enclose, start, stop]
  · conv => lhs; rw [← Text.indent_append_trimStart inner, Text.after?_eq_some_iff.1 hr, ht']
    simp

/-- The interpolation that numbers the iterations is found whatever follows on it. -/
theorem index_append {x rest : Text} (h : index (x ++ rest) = some ⟨x, []⟩) (v : Text) :
    index (x ++ v) = some ⟨x, []⟩ := by
  obtain ⟨b, e, -, hb, he, hx, -⟩ := exists_blanks_of_index_eq_some h
  obtain rfl : x = _ := congrArg Tag.source hx
  have hsplit : enclose true (b ++ "index".toList ++ e) ++ v =
      openingBraces ++ (b ++ ("index".toList ++ (e ++ (closingBraces ++ v)))) := by
    simp [enclose, start, stop]
  have hword : ∀ c ∈ ("index".toList ++ (e ++ (closingBraces ++ v))).head?, isBlank c = false := by
    rintro c ⟨⟩
    decide
  have hend : ∀ c ∈ (closingBraces ++ v).head?, isBlank c = false := by
    rintro c ⟨⟩
    decide
  have htail : blanksThen? closingBraces (e ++ (closingBraces ++ v)) = some (e ++ closingBraces) :=
    blanksThen?_eq_some_iff.2 ⟨by rw [Text.indent_append he hend], v, by simp⟩
  unfold index
  rw [hsplit]
  simp only [Option.bind_eq_bind, Option.pure_def, Text.after?_append, Option.bind_some,
    Text.trimStart_append hb hword, Text.indent_append hb hword, htail]
  simp [enclose, start, stop]

theorem exists_of_index_eq_some {t : Text} {tag : Tag} (h : index t = some tag) :
    ∃ inner rest, (∀ c ∈ inner, isDelimiterPart c = false) ∧ tag = ⟨enclose true inner, []⟩ ∧
      t = enclose true inner ++ rest := by
  obtain ⟨b, e, rest, hb, he, rfl, rfl⟩ := exists_blanks_of_index_eq_some h
  refine ⟨_, rest, fun c hc => ?_, rfl, rfl⟩
  have hword : ∀ c ∈ "index".toList, isDelimiterPart c = false := by decide
  simp only [List.mem_append, or_assoc] at hc
  rcases hc with hc | hc | hc
  · exact not_isDelimiterPart_of_isBlank (List.all_eq_true.1 hb c hc)
  · exact hword c hc
  · exact not_isDelimiterPart_of_isBlank (List.all_eq_true.1 he c hc)

/-- A pattern that holds nowhere in the first part of a text leaves that part alone. -/
theorem replace_append_of_none {p : Pattern} {f : Tag → Text} {s rest : Text}
    (h : ∀ a y, s = a ++ y → y ≠ [] → p (y ++ rest) = none) :
    replace p f (s ++ rest) = s ++ replace p f rest := by
  induction s with
  | nil => rfl
  | cons c s ih =>
    have hc : p (c :: (s ++ rest)) = none := h [] (c :: s) rfl (by simp)
    rw [List.cons_append, replace_char hc, ih fun a y e hy => h (c :: a) y (by simp [e]) hy]
    rfl

end Pattern

namespace Iteration

open Tag

variable (it : Iteration)

/-- The number that an iteration shows. -/
def number : Text := Text.ofNat (it.position + 1)

@[simp] theorem numbered_nil : it.numbered [] = [] := rfl

variable {it}

theorem index_char {c : Char} {cs : Text} (h : Pattern.span (c :: cs) = none)
    (hn : '\n' ∉ c :: cs) : Pattern.index (c :: cs) = none := by
  cases hi : Pattern.index (c :: cs) with
  | none => rfl
  | some tag =>
    obtain ⟨inner, rest, hd, -, ht⟩ := Pattern.exists_of_index_eq_some hi
    have hni : '\n' ∉ inner := fun e => hn (by rw [ht]; simp [enclose, e])
    rw [ht, Pattern.span_enclose true hd hni] at h
    cases h

theorem numbered_char {c : Char} {cs : Text} (h : Pattern.span (c :: cs) = none)
    (hn : '\n' ∉ c :: cs) : it.numbered (c :: cs) = c :: it.numbered cs :=
  Pattern.replace_char (index_char h hn)

/-- **A span stays** unless it is the one that numbers the iterations. -/
theorem numbered_enclose {braces : Bool} {inner rest : Text}
    (hd : ∀ c ∈ inner, isDelimiterPart c = false) (hn : '\n' ∉ inner) (hnr : '\n' ∉ rest) :
    (braces = true ∧ it.numbered (enclose braces inner ++ rest) = it.number ++ it.numbered rest) ∨
      it.numbered (enclose braces inner ++ rest) = enclose braces inner ++ it.numbered rest := by
  cases hi : Pattern.index (enclose braces inner ++ rest) with
  | some tag =>
    left
    obtain ⟨inner', rest', hd', rfl, ht⟩ := Pattern.exists_of_index_eq_some hi
    have hn' : '\n' ∉ inner' := by
      intro e
      have hm : '\n' ∈ enclose braces inner ++ rest := by rw [ht]; simp [enclose, e]
      have hstart : '\n' ∉ start braces := by cases braces <;> decide
      have hstop : '\n' ∉ stop braces := by cases braces <;> decide
      simp [enclose, hn, hnr, hstart, hstop] at hm
    -- both are the span at the beginning of the text
    have h1 := Pattern.span_enclose braces hd hn rest
    have h2 := Pattern.span_enclose true hd' hn' rest'
    rw [← ht, h1] at h2
    have hsource : enclose braces inner = enclose true inner' :=
      congrArg Tag.source (Option.some.inj h2)
    refine ⟨?_, ?_⟩
    · cases braces
      · simp [enclose, start, opening, openingBraces] at hsource
      · rfl
    · rw [← hsource] at hi
      exact Pattern.replace_tag Pattern.anchored_index ⟨enclose braces inner, []⟩ hi
  | none =>
    right
    refine Pattern.replace_append_of_none fun a y he hy => ?_
    cases hs : Pattern.index (y ++ rest) with
    | none => rfl
    | some tag =>
      obtain ⟨inner', rest', -, -, ht⟩ := Pattern.exists_of_index_eq_some hs
      obtain rfl := Text.eq_nil_of_overlap hd hy he ht.symm
      rw [he, List.nil_append, hs] at hi
      cases hi

/-! ## What is left of the spans -/

theorem number_isDigit : ∀ c ∈ it.number, c.isDigit = true := fun _ h => Text.isDigit_of_mem_ofNat h

theorem number_ne_nil : it.number ≠ [] := Text.ofNat_ne_nil _

theorem char_of_numbered {t a' u' : Text} {d : Char} (hd : d.isDigit = false)
    (h : it.numbered t = a' ++ d :: u') :
    ∃ a u, t = a ++ d :: u ∧ it.numbered u = u' ∧ (a = [] ↔ a' = []) := by
  induction t using Pattern.scan_induction Pattern.anchored_index generalizing a' with
  | nil => simp at h
  | char c cs hc ih =>
    rw [numbered, Pattern.replace_char hc] at h
    cases a' with
    | nil =>
      obtain ⟨rfl, rfl⟩ := List.cons.inj h
      exact ⟨[], cs, rfl, rfl, by simp⟩
    | cons b a' =>
      obtain ⟨a, u, rfl, hu, -⟩ := ih (List.cons.inj h).2
      exact ⟨c :: a, u, rfl, hu, by simp⟩
  | tag tag rest hs ih =>
    rw [numbered, Pattern.replace_tag Pattern.anchored_index _ hs] at h
    rcases List.append_eq_append_iff.1 h with ⟨x, rfl, hr⟩ | ⟨x, hx, hr⟩
    · obtain ⟨a, u, rfl, hu, -⟩ := ih hr
      have hne := (Pattern.anchored_index hs).1
      exact ⟨tag.source ++ a, u, by simp, hu, by simp [hne, Text.ofNat_ne_nil]⟩
    · cases x with
      | nil =>
        obtain ⟨a, u, rfl, hu, -⟩ := ih (show it.numbered _ = [] ++ _ :: _ from hr.symm)
        have hne := (Pattern.anchored_index hs).1
        have hne' : a' ≠ [] := by
          rintro rfl
          exact Text.ofNat_ne_nil _ (by simpa using hx)
        exact ⟨tag.source ++ a, u, by simp, hu, by simp [hne, hne']⟩
      | cons y x =>
        obtain ⟨rfl, -⟩ := List.cons.inj hr
        have hm : d ∈ Text.ofNat (it.position + 1) := by rw [hx]; simp
        exact absurd (Text.isDigit_of_mem_ofNat hm) (by simp [hd])

theorem append_of_numbered {t s u' : Text} (hs : ∀ c ∈ s, c.isDigit = false)
    (h : it.numbered t = s ++ u') : ∃ u, t = s ++ u ∧ it.numbered u = u' := by
  induction s generalizing t with
  | nil => exact ⟨t, rfl, h⟩
  | cons c s ih =>
    obtain ⟨a, u, rfl, hu, ha⟩ := char_of_numbered (hs c (by simp))
      (show it.numbered t = [] ++ c :: (s ++ u') from h)
    obtain rfl := ha.2 rfl
    obtain ⟨v, rfl, hv⟩ := ih (fun d hd => hs d (by simp [hd])) hu
    exact ⟨v, rfl, hv⟩

/-- **What holds no digit was there before the number**, at the start of the text if it is now. -/
theorem infix_of_numbered {t a' s u' : Text} (hs : ∀ c ∈ s, c.isDigit = false) (hne : s ≠ [])
    (h : it.numbered t = a' ++ (s ++ u')) :
    ∃ a u, t = a ++ (s ++ u) ∧ it.numbered u = u' ∧ (a = [] ↔ a' = []) := by
  obtain ⟨c, s, rfl⟩ := List.exists_cons_of_ne_nil hne
  obtain ⟨a, u, rfl, hu, ha⟩ := char_of_numbered (hs c (by simp)) h
  obtain ⟨v, rfl, hv⟩ := append_of_numbered (fun d hd => hs d (by simp [hd])) hu
  exact ⟨a, v, rfl, hv, ha⟩

theorem newline_not_mem_numbered {t : Text} (ht : '\n' ∉ t) : '\n' ∉ it.numbered t := by
  intro h
  obtain ⟨a', u', h⟩ := List.append_of_mem h
  obtain ⟨a, u, rfl, -⟩ := char_of_numbered (by decide) h
  exact ht (by simp)

theorem span_numbered_char {c : Char} {cs : Text} (h : Pattern.span (c :: cs) = none)
    (hn : '\n' ∉ c :: cs) : Pattern.span (c :: it.numbered cs) = none := by
  have hn' : '\n' ∉ c :: it.numbered cs := by
    have hcs : '\n' ∉ it.numbered cs :=
      newline_not_mem_numbered fun e => hn (List.mem_cons_of_mem c e)
    rintro (_ | ⟨_, e⟩)
    · exact hn (by simp)
    · exact hcs e
  rw [← Option.not_isSome_iff_eq_none] at h ⊢
  intro hs
  refine h ((Pattern.isSome_span_iff hn).2 ?_)
  obtain ⟨braces, r', ht, a', u', hr⟩ := (Pattern.isSome_span_iff hn').1 hs
  obtain ⟨d, hd, hd'⟩ := start_eq braces
  rw [hd] at ht
  obtain ⟨rfl, hcs⟩ : c = '{' ∧ it.numbered cs = d :: r' := by simpa using ht
  have hdigit : d.isDigit = false := by rcases hd' with rfl | rfl <;> decide
  obtain ⟨r, rfl, hr'⟩ := append_of_numbered (s := [d]) (by simpa using hdigit) hcs
  have hstop : ∀ c ∈ stop braces, c.isDigit = false := by cases braces <;> decide
  rw [← hr, List.append_assoc] at hr'
  obtain ⟨a, u, rfl, -⟩ := infix_of_numbered hstop (stop_ne_nil braces) hr'
  exact ⟨braces, a ++ (stop braces ++ u), by simp [hd], a, u, by simp⟩

theorem scan_append_digits {ds : Text} (hds : ∀ c ∈ ds, c.isDigit = true) (t : Text) :
    Pattern.span.scan (ds ++ t) = ds.map .char ++ Pattern.span.scan t := by
  induction ds with
  | nil => rfl
  | cons c ds ih =>
    rw [List.cons_append, Pattern.scan_char (span_digit (hds c (List.mem_cons_self ..)) _),
      ih fun d hd => hds d (List.mem_cons_of_mem c hd)]
    rfl

theorem filterMap_tag?_chars (t : Text) : (t.map Fragment.char).filterMap Fragment.tag? = [] := by
  simp [Fragment.tag?, List.filterMap_map]

theorem tags_append_digits {ds t : Text} (hds : ∀ c ∈ ds, c.isDigit = true) :
    Pattern.span.tags (ds ++ t) = Pattern.span.tags t := by
  rw [Pattern.tags, scan_append_digits hds, List.filterMap_append, filterMap_tag?_chars]
  rfl

/-- **The spans of a numbered text** are spans of the text. -/
theorem mem_tags_of_mem_tags_numbered {t : Text} (hn : '\n' ∉ t) (ht : Text.isTidy t = true)
    {tag : Tag} (h : tag ∈ Pattern.span.tags (it.numbered t)) : tag ∈ Pattern.span.tags t := by
  refine Text.tidy_induction (motive := fun t => ∀ tag ∈ Pattern.span.tags (it.numbered t),
    tag ∈ Pattern.span.tags t) ?_ ?_ ?_ t hn ht tag h
  · intro tag h
    exact h
  · intro c cs hnone hn _ ih tag h
    rw [numbered_char hnone hn, Pattern.tags_char (span_numbered_char hnone hn)] at h
    rw [Pattern.tags_char hnone]
    exact ih tag h
  · intro braces inner rest hd hn hnr _ ih tag h
    rw [Text.tags_enclose hd hn]
    rcases numbered_enclose hd hn hnr with ⟨-, heq⟩ | heq
    · rw [heq, tags_append_digits number_isDigit] at h
      exact List.mem_cons_of_mem _ (ih tag h)
    · rw [heq, Text.tags_enclose hd hn] at h
      rcases List.mem_cons.1 h with rfl | h
      · simp
      · exact List.mem_cons_of_mem _ (ih tag h)

theorem isTidy_numbered {t : Text} (hn : '\n' ∉ t) (ht : Text.isTidy t = true) :
    Text.isTidy (it.numbered t) = true :=
  List.all_eq_true.2 fun tag h =>
    List.all_eq_true.1 ht tag (mem_tags_of_mem_tags_numbered hn ht h)

/-! ## Tags with a keyword -/

/-- The relation between an interpolation that numbers the iterations and the number. -/
structure Numbers (it : Iteration) (x x' : Text) : Prop where
  index : ∃ rest, Pattern.index (x ++ rest) = some ⟨x, []⟩
  number : x' = it.number

theorem isStretch_number (joined : Bool) (t : Text) : IsStretch joined it.number t := by
  have hpart : ∀ c ∈ it.number, isPathPart c = true := fun c hc =>
    isPathPart_of_isDigit (number_isDigit c hc)
  have hstart : ∀ c ∈ it.number.head?, isPathStart c = false := fun c hc =>
    isPathStart_eq_false_of_isDigit (number_isDigit c (List.mem_of_mem_head? hc))
  exact {
    ne_nil := number_ne_nil
    inert := .of_isPathPart hpart
    head := fun c hc => not_isFixed_of_isPathPart (hpart c (List.mem_of_mem_head? hc))
    starts := fun c hc h => absurd h (by simp [hstart c hc])
    ends := fun c hc h => absurd h (by simp [hstart c hc]) }

theorem isStretch_index {x rest : Text} (h : Pattern.index (x ++ rest) = some ⟨x, []⟩)
    (hn : '\n' ∉ x) (joined : Bool) (t : Text) : IsStretch joined x t := by
  obtain ⟨inner, -, hd, hx, -⟩ := Pattern.exists_of_index_eq_some h
  obtain rfl : x = enclose true inner := congrArg Tag.source hx
  have hpercent : '%' ∉ enclose true inner := by
    have hi : '%' ∉ inner := fun hm => absurd (hd _ hm) (by decide)
    simp [enclose, start, stop, openingBraces, closingBraces, hi]
  have hhead : (enclose true inner).head? = some '{' := rfl
  have hbrace : isPathStart '{' = false := by decide
  have hlast : (enclose true inner).getLast? = some '}' := by
    simp [enclose, stop, closingBraces]
  refine ⟨by simp [enclose, start, openingBraces], ⟨fun s hs hi => ?_, ?_⟩, ?_, ?_, ?_⟩
  · simp only [breaks, List.mem_cons, List.not_mem_nil, or_false] at hs
    rcases hs with rfl | rfl | rfl
    · exact hpercent (hi.subset (by decide))
    · exact hpercent (hi.subset (by decide))
    · exact hn (hi.subset (by decide))
  · simp [hlast]
  · intro c hc
    obtain rfl : '{' = c := by simpa [hhead] using hc
    exact by decide
  · simp [hhead, hbrace]
  · simp [hhead, hbrace]

/-- **Numbering a text** puts the number in the place of interpolations. -/
theorem rephrases_numbered (it : Iteration) {t : Text}
    (hn : ∀ tag ∈ Pattern.index.tags t, '\n' ∉ tag.source) (joined : Bool) :
    Rephrases it.Numbers joined t (it.numbered t) := by
  induction t using Pattern.scan_induction Pattern.anchored_index generalizing joined with
  | nil => exact .nil
  | char c cs h ih =>
    rw [Pattern.tags_char h] at hn
    rw [numbered, Pattern.replace_char h]
    exact .char (ih hn _)
  | tag tag rest h ih =>
    rw [Pattern.tags_tag Pattern.anchored_index _ h] at hn
    rw [numbered, Pattern.replace_tag Pattern.anchored_index _ h]
    obtain ⟨inner, -, -, rfl, -⟩ := Pattern.exists_of_index_eq_some h
    exact .stretch ⟨⟨rest, h⟩, rfl⟩ (isStretch_index h (hn _ (by simp)) _ _)
      (isStretch_number _ _) (ih (fun tag htag => hn tag (by simp [htag])) false)

theorem newline_not_mem_of_mem_tags {p : Pattern} (hp : Pattern.Anchored p) {t : Text}
    (ht : '\n' ∉ t) : ∀ tag ∈ p.tags t, '\n' ∉ tag.source := by
  intro tag htag hm
  obtain ⟨a, b, rfl, -⟩ := Pattern.exists_of_mem_tags hp htag
  exact ht (by simp [hm])

/-- The number begins in no keyword. -/
theorem untouched_number {kw : Text} (hkw : IsKeyword kw) :
    Rephrases.Untouched (fun x x' => it.Numbers x' x) kw := by
  refine .of_head fun x x' hx c hc hm => ?_
  obtain rfl := hx.number
  have hdigit := number_isDigit c (List.mem_of_mem_head? hc)
  exact absurd hdigit (by simp [(isLower_separates (hkw.2 c hm)).2.2.2])

/-- **No tag with a keyword and an argument arises.** -/
theorem keyword_of_numbered {kw t : Text} (hkw : IsKeyword kw) (ht : '\n' ∉ t)
    (h : (Pattern.keyword kw).occursIn (it.numbered t) = true) :
    (Pattern.keyword kw).occursIn t = true :=
  (rephrases_numbered it (newline_not_mem_of_mem_tags Pattern.anchored_index ht) false).symm
    |>.occursIn_keyword hkw (untouched_number hkw) h

/-- **No tag with a keyword and nothing else arises.** -/
theorem bare_of_numbered {kw t : Text} (hkw : IsKeyword kw) (ht : '\n' ∉ t)
    (h : (Pattern.bare kw).occursIn (it.numbered t) = true) :
    (Pattern.bare kw).occursIn t = true :=
  (rephrases_numbered it (newline_not_mem_of_mem_tags Pattern.anchored_index ht) false).symm
    |>.occursIn_bare hkw (untouched_number hkw) h

theorem not_isDelimiterPart_of_isLabelPart {c : Char} (h : Pattern.isLabelPart c = true) :
    isDelimiterPart c = false :=
  not_isDelimiterPart_of (by decide) h

/-- **No tag with a keyword and a label arises** in a tidy text, although the number could be its
label: the tag would be a span of the text. -/
theorem labelled_of_numbered {kw t : Text} (hkw : IsKeyword kw) (hn : '\n' ∉ t)
    (ht : Text.isTidy t = true) (h : (Pattern.labelled kw).occursIn (it.numbered t) = true) :
    (Pattern.labelled kw).occursIn t = true := by
  have hn' : '\n' ∉ it.numbered t := newline_not_mem_numbered hn
  have ht' : Text.isTidy (it.numbered t) = true := isTidy_numbered hn ht
  obtain ⟨a', b', heq, hsome⟩ := (Pattern.occursIn_iff (Pattern.anchored_labelled kw)).1 h
  rcases (Pattern.isSome_labelled_iff hkw).1 hsome with
    hbare | ⟨b, i, label, e, r', rfl, hb, hi, hib, hl, hla, he⟩
  · have ho : (Pattern.bare kw).occursIn t = true := by
      have hnumbered : (Pattern.bare kw).occursIn (it.numbered t) = true :=
        (Pattern.occursIn_iff (Pattern.anchored_bare kw)).2 ⟨a', b', heq, hbare⟩
      exact bare_of_numbered hkw hn hnumbered
    obtain ⟨a, b, rfl, hb⟩ := (Pattern.occursIn_iff (Pattern.anchored_bare kw)).1 ho
    exact (Pattern.occursIn_iff (Pattern.anchored_labelled kw)).2
      ⟨a, b, rfl, (Pattern.isSome_labelled_iff hkw).2 (.inl hb)⟩
  · have hd : ∀ x ∈ b ++ kw ++ i ++ label ++ e, isDelimiterPart x = false := by
      intro x hx
      simp only [List.mem_append] at hx
      rcases hx with (((hx | hx) | hx) | hx) | hx
      · exact not_isDelimiterPart_of_isBlank (List.all_eq_true.1 hb x hx)
      · exact not_isDelimiterPart_of_isPathPart (isLower_separates (hkw.2 x hx)).2.1
      · exact not_isDelimiterPart_of_isBlank (List.all_eq_true.1 hib x hx)
      · exact not_isDelimiterPart_of_isLabelPart (List.all_eq_true.1 hla x hx)
      · exact not_isDelimiterPart_of_isBlank (List.all_eq_true.1 he x hx)
    have hspan : it.numbered t = a' ++ (enclose false (b ++ kw ++ i ++ label ++ e) ++ r') := by
      rw [heq]
      simp [enclose, start, stop]
    have hm := mem_tags_of_mem_tags_numbered hn ht (Text.mem_tags_of_eq hn' ht' hd hspan)
    obtain ⟨a, r, rfl, -⟩ := Pattern.exists_of_mem_tags Pattern.anchored_span hm
    refine (Pattern.occursIn_iff (Pattern.anchored_labelled kw)).2
      ⟨a, enclose false (b ++ kw ++ i ++ label ++ e) ++ r, by simp, ?_⟩
    refine (Pattern.isSome_labelled_iff hkw).2
      (.inr ⟨b, i, label, e, r, ?_, hb, hi, hib, hl, hla, he⟩)
    simp [enclose, start, stop]

end Iteration

end Stencil
