import Stencil.Proofs.Tag.Shape

/-!
# Spans

A span is whatever stands between delimiters. In a tidy text no span holds a character that
delimiters are made of, so that the spans of the text do not depend on where one starts to scan: a
stretch between delimiters that holds none of these characters is a span of every tidy text around
it (`mem_tags_of_eq`). Most of what is known of tidy texts is proved along `tidy_induction`, which
steps over a character or over a whole span.
-/

namespace Stencil

/-- The characters that delimiters are made of. -/
def isDelimiterPart (c : Char) : Bool := c == '{' || c == '}' || c == '%'

namespace Tag

/-- The delimiter at the start of a span, which is a double brace or the start of a tag with a
keyword. -/
def start (braces : Bool) : Text := if braces then openingBraces else opening

/-- The delimiter at the end of a span. -/
def stop (braces : Bool) : Text := if braces then closingBraces else closing

/-- A text between delimiters. -/
def enclose (braces : Bool) (inner : Text) : Text := start braces ++ inner ++ stop braces

/-- What stands between the delimiters of a span. -/
def inner (tag : Tag) : Text := (tag.source.drop 2).take (tag.source.length - 4)

/-- Whether nothing of a delimiter stands between the delimiters of a span. -/
def isTidy (tag : Tag) : Bool := tag.inner.all fun c => !isDelimiterPart c

theorem start_eq (braces : Bool) :
    ∃ d, start braces = ['{', d] ∧ (d = '{' ∨ d = '%') := by
  cases braces
  · exact ⟨'%', rfl, .inr rfl⟩
  · exact ⟨'{', rfl, .inl rfl⟩

theorem stop_eq (braces : Bool) :
    ∃ d, stop braces = [d, '}'] ∧ (d = '}' ∨ d = '%') := by
  cases braces
  · exact ⟨'%', rfl, .inr rfl⟩
  · exact ⟨'}', rfl, .inl rfl⟩

theorem stop_ne_nil (braces : Bool) : stop braces ≠ [] := by cases braces <;> decide

theorem start_not_isPathPart (braces : Bool) : ∀ c ∈ start braces, isPathPart c = false := by
  cases braces <;> decide

theorem stop_not_isPathPart (braces : Bool) : ∀ c ∈ stop braces, isPathPart c = false := by
  cases braces <;> decide

theorem isDelimiterPart_of_mem_stop {braces : Bool} {c : Char} (h : c ∈ stop braces) :
    isDelimiterPart c = true := by
  cases braces <;> revert c <;> decide

/-- A kind of character to which no part of a delimiter belongs. -/
theorem not_isDelimiterPart_of {p : Char → Bool} (hp : ∀ d ∈ ['{', '}', '%'], p d = false) {c : Char}
    (h : p c = true) : isDelimiterPart c = false := by
  cases hd : isDelimiterPart c with
  | false => rfl
  | true =>
    have hmem : c ∈ ['{', '}', '%'] := by simpa [isDelimiterPart, or_assoc] using hd
    exact absurd h (by simp [hp c hmem])

theorem not_isDelimiterPart_of_isPathPart {c : Char} (h : isPathPart c = true) :
    isDelimiterPart c = false :=
  not_isDelimiterPart_of (by decide) h

@[simp] theorem inner_enclose (braces : Bool) (inner argument : Text) :
    Tag.inner ⟨enclose braces inner, argument⟩ = inner := by
  obtain ⟨d, hd, -⟩ := start_eq braces
  obtain ⟨e, he, -⟩ := stop_eq braces
  simp [Tag.inner, enclose, hd, he]

theorem isTidy_enclose {braces : Bool} {inner argument : Text} :
    isTidy ⟨enclose braces inner, argument⟩ = true ↔ ∀ c ∈ inner, isDelimiterPart c = false := by
  simp [isTidy]

/-! ## Up to a delimiter -/

theorem isSome_upTo?_iff {delimiter t : Text} (ht : '\n' ∉ t) (hne : delimiter ≠ []) :
    (upTo? delimiter t).isSome ↔ delimiter <:+: t := by
  induction t with
  | nil => simpa [upTo?] using hne
  | cons c cs ih =>
    have hc : c ≠ '\n' := fun e => ht (by simp [e])
    rw [List.infix_cons_iff]
    unfold upTo?
    split
    · next hs =>
      obtain ⟨rest, hr⟩ := Text.startsWith_iff.1 hs
      simpa using Or.inl ⟨rest, hr.symm⟩
    · next hs =>
      have hp : ¬ delimiter <+: c :: cs := fun ⟨rest, hr⟩ =>
        hs (Text.startsWith_iff.2 ⟨rest, hr.symm⟩)
      simp [hp, ih fun e => ht (by simp [e])]

theorem exists_of_upTo?_eq_some {delimiter t x : Text} (h : upTo? delimiter t = some x) :
    ∃ inner, x = inner ++ delimiter := by
  induction t generalizing x with
  | nil => cases h
  | cons c cs ih =>
    unfold upTo? at h
    split at h
    · exact ⟨[], (Option.some.inj h).symm⟩
    · split at h
      · cases h
      · obtain ⟨y, hy, rfl⟩ := Option.map_eq_some_iff.1 h
        obtain ⟨inner, rfl⟩ := ih hy
        exact ⟨c :: inner, rfl⟩

theorem upTo?_append {inner : Text} (braces : Bool) (hd : ∀ c ∈ inner, isDelimiterPart c = false)
    (hn : '\n' ∉ inner) (rest : Text) :
    upTo? (stop braces) (inner ++ (stop braces ++ rest)) = some (inner ++ stop braces) := by
  induction inner with
  | nil =>
    have hs : Text.startsWith (stop braces) (stop braces ++ rest) = true :=
      Text.startsWith_iff.2 ⟨rest, rfl⟩
    obtain ⟨c, cs, hc⟩ := List.exists_cons_of_ne_nil (stop_ne_nil braces)
    rw [hc] at hs ⊢
    simp only [List.cons_append, List.nil_append] at hs ⊢
    rw [upTo?, if_pos hs]
  | cons c inner ih =>
    have hc : isDelimiterPart c = false := hd c (by simp)
    have hs : ¬ Text.startsWith (stop braces) (c :: (inner ++ (stop braces ++ rest))) = true := by
      intro hs
      obtain ⟨r, hr⟩ := Text.startsWith_iff.1 hs
      have hmem : c ∈ stop braces := by
        obtain ⟨d, hd, -⟩ := stop_eq braces
        rw [hd] at hr ⊢
        simp only [List.cons_append, List.cons.injEq] at hr
        simp [hr.1]
      exact absurd (isDelimiterPart_of_mem_stop hmem) (by simp [hc])
    have hn' : c ≠ '\n' := fun e => hn (by simp [e])
    have hi := ih (fun d hd' => hd d (by simp [hd'])) fun e => hn (by simp [e])
    rw [List.cons_append, upTo?, if_neg hs, if_neg hn', hi]
    rfl

end Tag

namespace Pattern

open Tag

/-! ## Where a span begins -/

theorem span_of_start (braces : Bool) (r : Text) :
    span (start braces ++ r) =
      (Tag.upTo? (stop braces) r).map fun tail => ⟨start braces ++ tail, []⟩ := by
  cases braces
  · have h : Text.after? openingBraces (opening ++ r) = none := rfl
    show span (opening ++ r) = _
    unfold span
    rw [h]
    simp only [Text.after?_append, Option.bind_eq_bind, Option.bind_some]
    show (Tag.upTo? closing r).bind _ = (Tag.upTo? closing r).map _
    cases Tag.upTo? closing r <;> rfl
  · show span (openingBraces ++ r) = _
    unfold span
    rw [Text.after?_append]
    rfl

theorem exists_start_of_isSome_span {t : Text} (h : (span t).isSome) :
    ∃ braces r, t = start braces ++ r := by
  obtain ⟨tag, htag⟩ := Option.isSome_iff_exists.1 h
  unfold span at htag
  split at htag
  · next r hr => exact ⟨true, r, Text.after?_eq_some_iff.1 hr⟩
  · simp only [Option.bind_eq_bind, Option.bind_eq_some_iff] at htag
    obtain ⟨r, hr, -⟩ := htag
    exact ⟨false, r, Text.after?_eq_some_iff.1 hr⟩

/-- A span begins with a brace. -/
theorem span_eq_none_of_ne {c : Char} (hc : c ≠ '{') (t : Text) : span (c :: t) = none := by
  rw [← Option.not_isSome_iff_eq_none]
  intro hs
  obtain ⟨braces, r, hr⟩ := exists_start_of_isSome_span hs
  obtain ⟨d, hd, -⟩ := start_eq braces
  rw [hd] at hr
  exact hc (List.cons.inj hr).1

/-- **A span begins** with a delimiter behind which the delimiter that ends it occurs. -/
theorem isSome_span_iff {t : Text} (ht : '\n' ∉ t) :
    (span t).isSome ↔ ∃ braces r, t = start braces ++ r ∧ stop braces <:+: r := by
  constructor
  · intro h
    obtain ⟨braces, r, rfl⟩ := exists_start_of_isSome_span h
    rw [span_of_start, Option.isSome_map, isSome_upTo?_iff
      (fun e => ht (List.mem_append_right _ e)) (stop_ne_nil _)] at h
    exact ⟨braces, r, rfl, h⟩
  · rintro ⟨braces, r, rfl, h⟩
    rw [span_of_start, Option.isSome_map, isSome_upTo?_iff
      (fun e => ht (List.mem_append_right _ e)) (stop_ne_nil _)]
    exact h

theorem exists_of_span_eq_some {t : Text} {tag : Tag} (h : span t = some tag) :
    ∃ braces inner rest, tag = ⟨enclose braces inner, []⟩ ∧ t = enclose braces inner ++ rest := by
  obtain ⟨-, rest, ht⟩ := anchored_span h
  obtain ⟨braces, r, rfl⟩ := exists_start_of_isSome_span (t := t) (by simp [h])
  rw [span_of_start] at h
  obtain ⟨tail, htail, rfl⟩ := Option.map_eq_some_iff.1 h
  obtain ⟨inner, rfl⟩ := exists_of_upTo?_eq_some htail
  exact ⟨braces, inner, rest, by simp [enclose], by simpa [enclose] using ht⟩

/-- **A stretch between delimiters** that holds nothing of a delimiter is a span. -/
theorem span_enclose {inner : Text} (braces : Bool)
    (hd : ∀ c ∈ inner, isDelimiterPart c = false) (hn : '\n' ∉ inner) (rest : Text) :
    span (enclose braces inner ++ rest) = some ⟨enclose braces inner, []⟩ := by
  have hsplit : enclose braces inner ++ rest =
      start braces ++ (inner ++ (stop braces ++ rest)) := by simp [enclose]
  rw [hsplit, span_of_start, upTo?_append braces hd hn]
  simp [enclose]

theorem tags_char {p : Pattern} {c : Char} {cs : Text} (h : p (c :: cs) = none) :
    tags p (c :: cs) = tags p cs := by
  simp [tags, scan_char h, List.filterMap_cons, Fragment.tag?]

theorem tags_tag {p : Pattern} (hp : Anchored p) (tag : Tag) {rest : Text}
    (h : p (tag.source ++ rest) = some tag) :
    tags p (tag.source ++ rest) = tag :: tags p rest := by
  simp [tags, scan_tag hp h, Fragment.tag?]

/-- A tag of a text is found where it stands. -/
theorem exists_of_mem_tags {p : Pattern} (hp : Anchored p) {tag : Tag} {t : Text}
    (h : tag ∈ tags p t) : ∃ a b, t = a ++ (tag.source ++ b) ∧ p (tag.source ++ b) = some tag := by
  induction t using scan_induction hp with
  | nil => cases h
  | char c cs hc ih =>
    rw [tags_char hc] at h
    obtain ⟨a, b, rfl, hs⟩ := ih h
    exact ⟨c :: a, b, rfl, hs⟩
  | tag found rest hs ih =>
    rw [tags_tag hp _ hs] at h
    rcases List.mem_cons.1 h with rfl | h
    · exact ⟨[], rest, rfl, hs⟩
    · obtain ⟨a, b, rfl, hb⟩ := ih h
      exact ⟨found.source ++ a, b, by simp, hb⟩

theorem replace_eq_self {p : Pattern} (hp : Anchored p) {f : Tag → Text} {t : Text}
    (h : ∀ tag ∈ tags p t, f tag = tag.source) : replace p f t = t := by
  induction t using scan_induction hp with
  | nil => rfl
  | char c cs hc ih =>
    rw [tags_char hc] at h
    rw [replace_char hc, ih h]
  | tag tag rest hs ih =>
    rw [tags_tag hp _ hs] at h
    rw [replace_tag hp _ hs, h tag (by simp), ih fun x hx => h x (List.mem_cons_of_mem _ hx)]

end Pattern

/-! ## Tidy texts -/

/-- Whether no span of the text holds a part of a delimiter. -/
def Text.isTidy (t : Text) : Bool := (Pattern.span.tags t).all Tag.isTidy

namespace Text

open Tag

theorem isTidy_char {c : Char} {cs : Text} (h : Pattern.span (c :: cs) = none) :
    isTidy (c :: cs) = isTidy cs := by
  rw [isTidy, Pattern.tags_char h, isTidy]

theorem tags_enclose {inner : Text} {braces : Bool}
    (hd : ∀ c ∈ inner, isDelimiterPart c = false) (hn : '\n' ∉ inner) (rest : Text) :
    Pattern.span.tags (enclose braces inner ++ rest) =
      ⟨enclose braces inner, []⟩ :: Pattern.span.tags rest :=
  Pattern.tags_tag Pattern.anchored_span ⟨enclose braces inner, []⟩
    (Pattern.span_enclose braces hd hn rest)

theorem isTidy_enclose_append {inner : Text} {braces : Bool}
    (hd : ∀ c ∈ inner, isDelimiterPart c = false) (hn : '\n' ∉ inner) (rest : Text) :
    isTidy (enclose braces inner ++ rest) = isTidy rest := by
  rw [isTidy, tags_enclose hd hn, List.all_cons, isTidy, Tag.isTidy_enclose.2 hd, Bool.true_and]

/-- **A tidy text** is read character by character and span by span, and no span holds a part of a
delimiter. -/
theorem tidy_induction {motive : Text → Prop} (nil : motive [])
    (char : ∀ c cs, Pattern.span (c :: cs) = none → '\n' ∉ c :: cs → isTidy cs = true →
      motive cs → motive (c :: cs))
    (enclosed : ∀ braces inner rest, (∀ c ∈ inner, isDelimiterPart c = false) → '\n' ∉ inner →
      '\n' ∉ rest → isTidy rest = true → motive rest → motive (enclose braces inner ++ rest))
    (t : Text) (hn : '\n' ∉ t) (ht : isTidy t = true) : motive t := by
  induction t using Pattern.scan_induction Pattern.anchored_span with
  | nil => exact nil
  | char c cs h ih =>
    rw [isTidy_char h] at ht
    exact char c cs h hn ht (ih (fun e => hn (by simp [e])) ht)
  | tag tag rest h ih =>
    have htag : tag ∈ Pattern.span.tags (tag.source ++ rest) := by
      simp [Pattern.tags_tag Pattern.anchored_span _ h]
    have hrest : isTidy rest = true := by
      rw [isTidy, Pattern.tags_tag Pattern.anchored_span _ h] at ht
      exact (Bool.and_eq_true_iff.1 ht).2
    have htidy := List.all_eq_true.1 ht tag htag
    obtain ⟨braces, inner, -, rfl, -⟩ := Pattern.exists_of_span_eq_some h
    have hnr : '\n' ∉ rest := fun e => hn (List.mem_append_right _ e)
    refine enclosed braces inner rest (Tag.isTidy_enclose.1 htidy) ?_ hnr hrest (ih hnr hrest)
    intro e
    exact hn (List.mem_append_left _ (by simp [enclose, e]))

/-- A span that holds no part of a delimiter is not overlapped by another one. -/
theorem eq_nil_of_overlap {a x inner inner' r rest : Text} {braces braces' : Bool}
    (hd : ∀ c ∈ inner, isDelimiterPart c = false) (hx : x ≠ [])
    (h : enclose braces inner = a ++ x)
    (hr : enclose braces' inner' ++ r = x ++ rest) : a = [] := by
  obtain ⟨d, hs, hbrace⟩ := start_eq braces
  obtain ⟨d', hs', hd'⟩ := start_eq braces'
  obtain ⟨e, he, he'⟩ := stop_eq braces
  obtain ⟨y, x, rfl⟩ := List.exists_cons_of_ne_nil hx
  simp only [enclose, hs', List.cons_append, List.nil_append, List.append_assoc,
    List.cons.injEq] at hr
  obtain ⟨rfl, hr⟩ := hr
  have hmem : '{' ∉ inner ++ stop braces := by
    intro hm
    rcases List.mem_append.1 hm with hm | hm
    · exact absurd (hd _ hm) (by decide)
    · rw [he] at hm
      rcases he' with rfl | rfl <;> simp at hm
  simp only [enclose, hs, List.cons_append, List.nil_append] at h
  cases a with
  | nil => rfl
  | cons b a =>
    obtain ⟨-, h⟩ := List.cons.inj h
    cases a with
    | cons b a =>
      refine absurd ?_ hmem
      rw [(List.cons.inj h).2]
      simp
    | nil =>
      -- the other span would begin with the second character of the delimiter
      obtain ⟨rfl, rfl⟩ := List.cons.inj h
      have hbraces : braces = true := by
        cases braces
        · cases hs
        · rfl
      subst hbraces
      cases inner with
      | nil =>
        obtain ⟨rfl, -⟩ : d' = '}' ∧ _ := by simpa [stop, closingBraces] using hr
        simp at hd'
      | cons c inner =>
        obtain ⟨rfl, -⟩ : d' = c ∧ _ := by simpa using hr
        have hc := hd d' (by simp)
        rcases hd' with rfl | rfl <;> exact absurd hc (by decide)

/-- **A stretch between delimiters** that holds nothing of a delimiter is a span of every tidy text
around it. -/
theorem mem_tags_of_eq {a inner r t : Text} {braces : Bool} (hn : '\n' ∉ t) (ht : isTidy t = true)
    (hd : ∀ c ∈ inner, isDelimiterPart c = false)
    (h : t = a ++ (enclose braces inner ++ r)) :
    ⟨enclose braces inner, []⟩ ∈ Pattern.span.tags t := by
  have hni : '\n' ∉ inner := fun e => hn (by rw [h]; simp [enclose, e])
  refine tidy_induction (motive := fun t => ∀ a, t = a ++ (enclose braces inner ++ r) →
    ⟨enclose braces inner, []⟩ ∈ Pattern.span.tags t) ?_ ?_ ?_ t hn ht a h
  · intro a h
    obtain ⟨d, hs, -⟩ := start_eq braces
    simp [enclose, hs] at h
  · intro c cs hnone _ _ ih a h
    cases a with
    | nil =>
      have hsome := Pattern.span_enclose braces hd hni r
      rw [List.nil_append] at h
      rw [← h, hnone] at hsome
      cases hsome
    | cons b a =>
      rw [Pattern.tags_char hnone]
      exact ih a (List.cons.inj h).2
  · intro braces' inner' rest hd' hn' _ _ ih a h
    rw [tags_enclose hd' hn']
    rcases List.append_eq_append_iff.1 h with ⟨x, ha, hr⟩ | ⟨x, ha, hr⟩
    · exact List.mem_cons_of_mem _ (ih x hr)
    · by_cases hx : x = []
      · subst hx
        exact List.mem_cons_of_mem _ (ih [] (by simpa using hr.symm))
      · obtain rfl := eq_nil_of_overlap hd' hx ha hr
        have h1 := Pattern.span_enclose braces hd hni r
        have h2 := Pattern.span_enclose braces' hd' hn' rest
        rw [h, List.nil_append, h1] at h2
        rw [Option.some.inj h2]
        simp

end Text

end Stencil
