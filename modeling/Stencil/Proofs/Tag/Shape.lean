import Stencil.Loop.Basic
import Stencil.Proofs.Tag.Scanning
import Stencil.Proofs.Text.Split

/-!
# The shapes of tags

The readers of tags can be said in plain words. A tag with an argument is the opening delimiter,
blanks, the keyword, blanks, an argument, and the closing delimiter (`isSome_keyword_iff`). An
argument holds no line ends but among the blanks at its end (`isArgument_iff`). The tags that close a
body hold nothing but blanks, and for a block perhaps a label (`isSome_bare_iff`,
`isSome_labelled_iff`).
-/

namespace Stencil

/-! ## Classes of characters -/

/-- The blank characters, one by one. -/
def blankChars : List Char :=
  [0x09, 0x0a, 0x0b, 0x0c, 0x0d, 0x20, 0x85, 0xa0, 0x1680, 0x2000, 0x2001, 0x2002, 0x2003, 0x2004,
   0x2005, 0x2006, 0x2007, 0x2008, 0x2009, 0x200a, 0x2028, 0x2029, 0x202f, 0x205f, 0x3000].map
    Char.ofNat

theorem mem_blankChars {c : Char} (h : isBlank c = true) : c ∈ blankChars := by
  simp only [isBlank, Bool.or_eq_true, Bool.and_eq_true, decide_eq_true_eq, beq_iff_eq] at h
  have hc : c = Char.ofNat c.toNat := (Char.ofNat_toNat c).symm
  rw [hc]
  refine List.mem_map_of_mem (f := Char.ofNat) ?_
  simp only [List.mem_cons, List.not_mem_nil, or_false]
  omega

/-- Blanks belong neither to paths nor to words, and delimit no tag. -/
theorem blank_separates {c : Char} (h : isBlank c = true) :
    isPathPart c = false ∧ isWordChar c = false ∧ c ≠ '-' ∧ c ≠ '{' ∧ c ≠ '}' ∧ c ≠ '%' ∧
      c ≠ '"' ∧ c ≠ '\'' := by
  have key : ∀ d ∈ blankChars, isPathPart d = false ∧ isWordChar d = false ∧ d ≠ '-' ∧ d ≠ '{' ∧
      d ≠ '}' ∧ d ≠ '%' ∧ d ≠ '"' ∧ d ≠ '\'' := by decide +kernel
  exact key c (mem_blankChars h)

/-- Whether the word can begin a path. -/
def startsPath (w : Text) : Bool := w.head?.any isPathStart

theorem isPathPart_of_isPathStart {c : Char} (h : isPathStart c = true) : isPathPart c = true := by
  unfold isPathStart at h
  unfold isPathPart isAlphanumeric
  rcases Bool.or_eq_true_iff.1 h with h | h
  · by_cases hc : c.toNat < 0x80
    · have ha : c.isAlphanum = true := by
        simp only [isAlphabetic, hc, if_true] at h
        simp [Char.isAlphanum, h]
      simp [hc, ha]
    · simp [hc, h]
  · simp [h]

/-- A word that can stand at the start of a tag: lower-case letters. -/
def IsKeyword (kw : Text) : Prop := kw ≠ [] ∧ ∀ c ∈ kw, c.isLower = true

instance (kw : Text) : Decidable (IsKeyword kw) := inferInstanceAs (Decidable (_ ∧ _))

theorem isLower_separates {c : Char} (h : c.isLower = true) :
    isBlank c = false ∧ isPathPart c = true ∧ c ≠ '.' ∧ c.isDigit = false := by
  obtain ⟨hlow, hhigh⟩ := Bool.and_eq_true_iff.1 h
  have h1 : 97 ≤ c.toNat := of_decide_eq_true hlow
  have h2 : c.toNat ≤ 122 := of_decide_eq_true hhigh
  refine ⟨?_, ?_, ?_, ?_⟩
  · simp only [isBlank, Bool.or_eq_false_iff, Bool.and_eq_false_iff, decide_eq_false_iff_not,
      beq_eq_false_iff_ne]
    omega
  · have hc : c.toNat < 0x80 := by omega
    have halphanum : c.isAlphanum = true := by
      show (c.isUpper || c.isLower || c.isDigit) = true
      simp [h]
    simp [isPathPart, isAlphanumeric, hc, halphanum]
  · rintro rfl
    exact absurd h1 (by decide)
  · simp only [Char.isDigit, Bool.and_eq_false_iff, decide_eq_false_iff_not]
    right
    intro h3
    have h3 : c.toNat ≤ 57 := h3
    omega

theorem isPathStart_of_isLower {c : Char} (h : c.isLower = true) : isPathStart c = true := by
  have hc : c.toNat < 0x80 := by
    have h2 : c.toNat ≤ 122 := of_decide_eq_true (Bool.and_eq_true_iff.1 h).2
    omega
  have ha : c.isAlpha = true := Bool.or_eq_true_iff.2 (.inr h)
  simp [isPathStart, isAlphabetic, hc, ha]

namespace IsKeyword

theorem head_not_blank {kw : Text} (h : IsKeyword kw) : ∀ c ∈ kw.head?, isBlank c = false :=
  fun c hc => (isLower_separates (h.2 c (List.mem_of_mem_head? hc))).1

theorem head_append {kw : Text} (h : IsKeyword kw) (t : Text) :
    ∀ c ∈ (kw ++ t).head?, isBlank c = false := by
  obtain ⟨k, ks, rfl⟩ := List.exists_cons_of_ne_nil h.1
  exact fun c hc => h.head_not_blank c (by simpa using hc)

end IsKeyword

/-! ## Arguments -/

namespace Tag

/-- What can be the argument of a tag and the blanks behind it: no line ends but among these. -/
def IsArgument (x : Text) : Prop :=
  ∃ argument e, x = argument ++ e ∧ argument ≠ [] ∧ '\n' ∉ argument ∧ e.all isBlank

theorem IsArgument.ne_nil {x : Text} (h : IsArgument x) : x ≠ [] := by
  obtain ⟨argument, e, rfl, hne, -⟩ := h
  simp [hne]

theorem isArgument_of_newline_not_mem {x : Text} (hne : x ≠ []) (h : '\n' ∉ x) : IsArgument x :=
  ⟨x, [], by simp, hne, h, rfl⟩

/-- An argument ends with its line, or holds no line end. -/
theorem isArgument_iff {x : Text} :
    IsArgument x ↔ x ≠ [] ∧ '\n' ∉ x ∨
      ∃ p q, x = p ++ '\n' :: q ∧ p ≠ [] ∧ '\n' ∉ p ∧ q.all isBlank := by
  constructor
  · rintro ⟨argument, e, rfl, hne, hn, he⟩
    by_cases h : '\n' ∈ e
    · obtain ⟨e, q, rfl, he'⟩ := List.eq_append_cons_of_mem h
      refine .inr ⟨argument ++ e, q, by simp, by simp [hne], by simp [hn, he'], ?_⟩
      simp only [List.all_append, List.all_cons, Bool.and_eq_true] at he
      exact he.2.2
    · exact .inl ⟨by simp [hne], by simp [hn, h]⟩
  · rintro (⟨hne, hn⟩ | ⟨p, q, rfl, hne, hn, hq⟩)
    · exact isArgument_of_newline_not_mem hne hn
    · exact ⟨p, '\n' :: q, rfl, hne, hn, by simpa using ⟨by decide, by simpa using hq⟩⟩

theorem isSome_blanksThen?_iff {delimiter t : Text} (hne : delimiter ≠ [])
    (hd : ∀ c ∈ delimiter.head?, isBlank c = false) :
    (blanksThen? delimiter t).isSome ↔ ∃ b r, t = b ++ delimiter ++ r ∧ b.all isBlank := by
  constructor
  · intro h
    obtain ⟨tail, ht⟩ := Option.isSome_iff_exists.1 h
    obtain ⟨rfl, rest, hr⟩ := blanksThen?_eq_some_iff.1 ht
    exact ⟨Text.indent t, rest, hr, Text.all_indent t⟩
  · rintro ⟨b, r, rfl, hb⟩
    obtain ⟨e, es, rfl⟩ := List.exists_cons_of_ne_nil hne
    have hi : Text.indent (b ++ (e :: es) ++ r) = b := by
      rw [List.append_assoc]
      exact Text.indent_append hb (by simpa using hd)
    rw [blanksThen?_eq_some_iff.2 ⟨rfl, r, by rw [hi]⟩]
    rfl

theorem exists_of_argument?_eq_some {delimiter t argument tail : Text}
    (h : argument? delimiter t = some (argument, tail)) :
    argument ≠ [] ∧ '\n' ∉ argument ∧
      ∃ e r, e.all isBlank ∧ tail = e ++ delimiter ∧ t = argument ++ (tail ++ r) := by
  induction t generalizing argument with
  | nil => cases h
  | cons c cs ih =>
    unfold argument? at h
    split at h
    · cases h
    next hc =>
    split at h
    · next hb =>
      obtain ⟨rfl, rfl⟩ : [c] = argument ∧ _ = tail := by simpa using h
      obtain ⟨rfl, r, hr⟩ := blanksThen?_eq_some_iff.1 hb
      exact ⟨by simp, by simpa using Ne.symm hc, Text.indent cs, r, Text.all_indent cs, rfl,
        congrArg (c :: ·) hr⟩
    · obtain ⟨⟨argument', tail'⟩, ha, he⟩ := Option.map_eq_some_iff.1 h
      obtain ⟨rfl, rfl⟩ : c :: argument' = argument ∧ tail' = tail := by simpa using he
      obtain ⟨-, hn, e, r, hb, rfl, rfl⟩ := ih ha
      exact ⟨by simp, by simp [Ne.symm hc, hn], e, r, hb, rfl, rfl⟩

section Delimiter

variable {delimiter : Text} (hne : delimiter ≠ [])
  (hd : ∀ c ∈ delimiter.head?, isBlank c = false)
include hne hd

theorem isSome_argument?_iff {t : Text} :
    (argument? delimiter t).isSome ↔ ∃ x r, t = x ++ (delimiter ++ r) ∧ IsArgument x := by
  constructor
  · intro h
    obtain ⟨⟨argument, tail⟩, ha⟩ := Option.isSome_iff_exists.1 h
    obtain ⟨hne, hn, e, r, he, rfl, rfl⟩ := exists_of_argument?_eq_some ha
    exact ⟨argument ++ e, r, by simp, argument, e, rfl, hne, hn, he⟩
  · rintro ⟨-, r, rfl, argument, e, rfl, hne', hn, he⟩
    induction argument with
    | nil => exact absurd rfl hne'
    | cons c cs ih =>
      have hc : c ≠ '\n' := fun h => hn (by simp [h])
      simp only [List.cons_append, argument?, if_neg hc]
      cases hb : blanksThen? delimiter (cs ++ e ++ (delimiter ++ r)) with
      | some tail => rfl
      | none =>
        have hcs : cs ≠ [] := by
          rintro rfl
          have hsome := (isSome_blanksThen?_iff hne hd).2 ⟨e, r, (List.append_assoc ..).symm, he⟩
          rw [show blanksThen? delimiter (e ++ (delimiter ++ r)) = none from hb] at hsome
          cases hsome
        simpa using ih hcs fun h => hn (by simp [h])

omit hne hd in
theorem exists_of_withArgument?_eq_some {head t : Text} {blanks : Nat} {tag : Tag}
    (h : withArgument? head delimiter blanks t = some tag) :
    ∃ i x r, tag.source = head ++ (i ++ (x ++ delimiter)) ∧ t = i ++ (x ++ (delimiter ++ r)) ∧
      blanks ≤ i.length ∧ i.all isBlank ∧ IsArgument x ∧
      ∃ e, e.all isBlank ∧ x = tag.argument ++ e := by
  have hsplit := Text.indent_append_trimStart t
  have hblank := Text.all_indent t
  unfold withArgument? at h
  simp only at h
  split at h
  · cases h
  next hlen =>
  split at h
  · next argument tail ha =>
    obtain rfl := Option.some.inj h
    obtain ⟨hne, hn, e, r, he, rfl, hr⟩ := exists_of_argument?_eq_some ha
    refine ⟨Text.indent t, argument ++ e, r, by simp, ?_, by omega, hblank,
      ⟨argument, e, rfl, hne, hn, he⟩, e, he, rfl⟩
    conv => lhs; rw [← hsplit, hr]
    simp
  split at h
  · next hs =>
    obtain rfl := Option.some.inj h
    obtain ⟨hs, hany⟩ := Bool.and_eq_true_iff.1 hs
    obtain ⟨r, hr⟩ := Text.startsWith_iff.1 hs
    -- a blank that is no line end counts as the argument, and those behind it follow on it
    obtain ⟨c, hc, hcn⟩ := List.any_eq_true.1 hany
    obtain ⟨p, q, hpq⟩ := List.append_of_mem hc
    have hind : Text.indent t = (Text.indent t).take blanks ++ (p ++ c :: q) := by
      rw [← hpq, List.take_append_drop]
    rw [hind] at hblank
    simp only [List.all_append, List.all_cons, Bool.and_eq_true] at hblank
    refine ⟨(Text.indent t).take blanks ++ p, c :: q, r, ?_, ?_, ?_, ?_,
      ⟨[c], q, rfl, by simp, ?_, hblank.2.2.2⟩, c :: q, ?_, rfl⟩
    · conv => lhs; rw [hind]
      simp
    · conv => lhs; rw [← hsplit, hind, hr]
      simp
    · rw [List.length_append, List.length_take]
      omega
    · simp [hblank.1, hblank.2.1]
    · simpa using Ne.symm (of_decide_eq_true hcn)
    · simpa using hblank.2.2
  · cases h

/-- An argument behind `blanks` required blanks, and the delimiter. -/
theorem isSome_withArgument?_iff {head t : Text} {blanks : Nat} :
    (withArgument? head delimiter blanks t).isSome ↔
      ∃ i x r, t = i ++ (x ++ (delimiter ++ r)) ∧ blanks ≤ i.length ∧ i.all isBlank ∧
        IsArgument x := by
  constructor
  · intro h
    obtain ⟨tag, htag⟩ := Option.isSome_iff_exists.1 h
    obtain ⟨i, x, r, -, ht, hlen, hi, hx, -⟩ := exists_of_withArgument?_eq_some htag
    exact ⟨i, x, r, ht, hlen, hi, hx⟩
  · rintro ⟨i, x, r, rfl, hlen, hi, hx⟩
    have hind : Text.indent (i ++ (x ++ (delimiter ++ r))) =
        i ++ Text.indent (x ++ (delimiter ++ r)) :=
      List.takeWhile_append_of_pos (by simpa using hi)
    have htrim : Text.trimStart (i ++ (x ++ (delimiter ++ r))) =
        Text.trimStart (x ++ (delimiter ++ r)) :=
      List.dropWhile_append_of_pos (by simpa using hi)
    have hd' : ∀ c ∈ (delimiter ++ r).head?, isBlank c = false := by
      obtain ⟨e, es, rfl⟩ := List.exists_cons_of_ne_nil hne
      simpa using hd
    unfold withArgument?
    simp only
    rw [if_neg (by rw [hind, List.length_append]; omega), htrim]
    split
    · rfl
    next hnone =>
    obtain ⟨argument, e, rfl, hne', hn, he⟩ := hx
    have htrim' : Text.trimStart (argument ++ e ++ (delimiter ++ r)) =
        if (Text.trimStart argument).isEmpty then delimiter ++ r
        else Text.trimStart argument ++ (e ++ (delimiter ++ r)) := by
      rw [List.append_assoc, Text.trimStart, List.dropWhile_append, ← Text.trimStart,
        ← Text.trimStart, Text.trimStart_append he hd']
    by_cases hb : Text.trimStart argument = []
    · -- nothing but blanks: one that is no line end counts as the argument
      have hblank : argument.all isBlank = true := by
        have hsplit := Text.indent_append_trimStart argument
        rw [hb, List.append_nil] at hsplit
        exact hsplit ▸ Text.all_indent argument
      have hind' : Text.indent (argument ++ e ++ (delimiter ++ r)) = argument ++ e :=
        Text.indent_append (by simpa using And.intro hblank he) hd'
      obtain ⟨c, cs, rfl⟩ := List.exists_cons_of_ne_nil hne'
      have hc : c ≠ '\n' := fun h => hn (by simp [h])
      rw [htrim', hb, if_pos (show ([] : Text).isEmpty = true from rfl), hind, hind',
        List.drop_append_of_le_length hlen, Text.startsWith_iff.2 ⟨r, rfl⟩]
      simp [hc]
    · -- an argument behind the blanks would have been found
      have hsome := (isSome_argument?_iff hne hd).2 ⟨Text.trimStart argument ++ e, r, rfl,
        Text.trimStart argument, e, rfl, hb,
        fun h => hn (Text.indent_append_trimStart argument ▸ List.mem_append_right _ h), he⟩
      rw [htrim', if_neg (by simpa using hb), ← List.append_assoc] at hnone
      rw [hnone] at hsome
      cases hsome

end Delimiter

end Tag

/-! ## Tags with a keyword -/

namespace Tag

theorem closing_ne_nil : closing ≠ [] := by decide

theorem closing_head : ∀ c ∈ closing.head?, isBlank c = false := by
  rintro c ⟨⟩
  decide

theorem closingBraces_ne_nil : closingBraces ≠ [] := by decide

theorem closingBraces_head : ∀ c ∈ closingBraces.head?, isBlank c = false := by
  rintro c ⟨⟩
  decide

theorem keyword?_eq_some_iff {kw t head rest : Text} (hkw : IsKeyword kw) :
    keyword? kw t = some (head, rest) ↔
      ∃ b, b.all isBlank ∧ head = opening ++ b ++ kw ∧ t = opening ++ b ++ kw ++ rest := by
  constructor
  · intro h
    obtain ⟨rfl, b, hb, rfl⟩ := keyword?_start h
    exact ⟨b, hb, rfl, rfl⟩
  · rintro ⟨b, hb, rfl, rfl⟩
    have h1 : Text.after? opening (opening ++ b ++ kw ++ rest) = some (b ++ (kw ++ rest)) := by
      simp
    unfold keyword?
    simp only [Option.bind_eq_bind, Option.pure_def, h1, Option.bind_some,
      Text.trimStart_append hb (hkw.head_append rest), Text.after?_append,
      Text.indent_append hb (hkw.head_append rest)]

/-- The source of a tag that closes a body: its keyword, and perhaps a label behind blanks. -/
def IsClosing (kw label s : Text) : Prop :=
  ∃ b i e, s = opening ++ b ++ kw ++ (i ++ (label ++ (e ++ closing))) ∧ b.all isBlank ∧
    i.all isBlank ∧ e.all isBlank ∧ (i = [] → label = [])

end Tag

namespace Pattern

open Tag

theorem exists_of_keyword_eq_some {kw t : Text} {tag : Tag} (hkw : IsKeyword kw)
    (h : keyword kw t = some tag) :
    ∃ b i x r, tag.source = opening ++ b ++ kw ++ (i ++ (x ++ closing)) ∧ t = tag.source ++ r ∧
      b.all isBlank ∧ i ≠ [] ∧ i.all isBlank ∧ IsArgument x ∧
      ∃ e, e.all isBlank ∧ x = tag.argument ++ e := by
  unfold keyword at h
  simp only [Option.bind_eq_bind, Option.bind_eq_some_iff] at h
  obtain ⟨⟨head, rest⟩, hk, hw⟩ := h
  obtain ⟨b, hb, rfl, rfl⟩ := (keyword?_eq_some_iff hkw).1 hk
  obtain ⟨i, x, r, hs, rfl, hlen, hi, hx, he⟩ := exists_of_withArgument?_eq_some hw
  refine ⟨b, i, x, r, hs, by simp [hs], hb, ?_, hi, hx, he⟩
  rintro rfl
  simp at hlen

/-- **A tag with an argument.** -/
theorem isSome_keyword_iff {kw t : Text} (hkw : IsKeyword kw) :
    (keyword kw t).isSome ↔ ∃ b i x r, t = opening ++ b ++ kw ++ (i ++ (x ++ (closing ++ r))) ∧
      b.all isBlank ∧ i ≠ [] ∧ i.all isBlank ∧ IsArgument x := by
  constructor
  · intro h
    obtain ⟨tag, htag⟩ := Option.isSome_iff_exists.1 h
    obtain ⟨b, i, x, r, hs, rfl, hb, hne, hi, hx, -⟩ := exists_of_keyword_eq_some hkw htag
    exact ⟨b, i, x, r, by simp [hs], hb, hne, hi, hx⟩
  · rintro ⟨b, i, x, r, rfl, hb, hne, hi, hx⟩
    unfold keyword
    simp only [Option.bind_eq_bind, (keyword?_eq_some_iff hkw).2 ⟨b, hb, rfl, rfl⟩,
      Option.bind_some]
    exact (isSome_withArgument?_iff closing_ne_nil closing_head).2
      ⟨i, x, r, rfl, List.length_pos_iff.2 hne, hi, hx⟩

/-- **A tag that holds its keyword and nothing else.** -/
theorem isSome_bare_iff {kw t : Text} (hkw : IsKeyword kw) :
    (bare kw t).isSome ↔ ∃ b e r, t = opening ++ b ++ kw ++ (e ++ closing ++ r) ∧ b.all isBlank ∧
      e.all isBlank := by
  unfold bare
  constructor
  · intro h
    obtain ⟨tag, htag⟩ := Option.isSome_iff_exists.1 h
    simp only [Option.bind_eq_bind, Option.bind_eq_some_iff] at htag
    obtain ⟨⟨head, rest⟩, hk, tail, hw, -⟩ := htag
    obtain ⟨b, hb, rfl, rfl⟩ := (keyword?_eq_some_iff hkw).1 hk
    obtain ⟨e, r, rfl, he⟩ :=
      (isSome_blanksThen?_iff closing_ne_nil closing_head).1 (Option.isSome_iff_exists.2 ⟨_, hw⟩)
    exact ⟨b, e, r, rfl, hb, he⟩
  · rintro ⟨b, e, r, rfl, hb, he⟩
    have hk := (keyword?_eq_some_iff (t := opening ++ b ++ kw ++ (e ++ closing ++ r)) hkw).2
      ⟨b, hb, rfl, rfl⟩
    obtain ⟨tail, htail⟩ := Option.isSome_iff_exists.1
      ((isSome_blanksThen?_iff (t := e ++ closing ++ r) closing_ne_nil closing_head).2
        ⟨e, r, rfl, he⟩)
    simp only [Option.bind_eq_bind, hk, Option.bind_some, htail]
    rfl

/-- Whether the character may stand in the label of a closing tag. -/
def isLabelPart (c : Char) : Bool := isWordChar c || c == '-'

theorem not_isLabelPart_of_isBlank {c : Char} (h : isBlank c = true) : isLabelPart c = false := by
  obtain ⟨-, hw, hh, -⟩ := blank_separates h
  simp [isLabelPart, hw, hh]

theorem dot_not_mem_label {label : Text} (h : label.all isLabelPart) : '.' ∉ label := fun hd =>
  absurd (List.all_eq_true.1 h _ hd) (by decide)

theorem isClosing_of_bare_eq_some {kw t : Text} {tag : Tag} (hkw : IsKeyword kw)
    (h : bare kw t = some tag) : IsClosing kw [] tag.source := by
  unfold bare at h
  simp only [Option.bind_eq_bind, Option.bind_eq_some_iff, Option.pure_def, Option.some.injEq] at h
  obtain ⟨⟨head, rest⟩, hk, tail, ht, rfl⟩ := h
  obtain ⟨b, hb, rfl, -⟩ := (keyword?_eq_some_iff hkw).1 hk
  obtain ⟨rfl, -⟩ := blanksThen?_eq_some_iff.1 ht
  exact ⟨b, [], Text.indent rest, by simp, hb, rfl, Text.all_indent rest, fun _ => rfl⟩

theorem isClosing_of_labelled_eq_some {kw t : Text} {tag : Tag} (hkw : IsKeyword kw)
    (h : labelled kw t = some tag) :
    IsClosing kw tag.argument tag.source ∧ tag.argument.all isLabelPart := by
  unfold labelled at h
  simp only [Option.bind_eq_bind, Option.bind_eq_some_iff, Option.pure_def] at h
  obtain ⟨⟨head, rest⟩, hk, h⟩ := h
  obtain ⟨b, hb, rfl, rfl⟩ := (keyword?_eq_some_iff hkw).1 hk
  split at h
  · simp only [Option.bind_eq_some_iff, Option.some.injEq] at h
    obtain ⟨tail, ht, rfl⟩ := h
    obtain ⟨rfl, -⟩ := blanksThen?_eq_some_iff.1 ht
    exact ⟨⟨b, [], Text.indent rest, by simp, hb, rfl, Text.all_indent rest,
      fun _ => rfl⟩, rfl⟩
  · next hne =>
    simp only [Option.bind_eq_some_iff, Option.some.injEq] at h
    obtain ⟨tail, ht, rfl⟩ := h
    obtain ⟨rfl, -⟩ := blanksThen?_eq_some_iff.1 ht
    simp only [Bool.or_eq_true, List.isEmpty_iff, not_or] at hne
    refine ⟨⟨b, Text.indent rest, _, ?_, hb, Text.all_indent rest, Text.all_indent
      ((Text.trimStart rest).dropWhile isLabelPart), fun h => absurd h hne.1⟩, List.all_takeWhile⟩
    simp only [List.append_assoc]
    rfl

section Labelled

variable {kw b e : Text} (hkw : IsKeyword kw) (hb : b.all isBlank) (he : e.all isBlank)
include hkw hb he

theorem isSome_labelled_bare (r : Text) :
    (labelled kw (opening ++ b ++ kw ++ (e ++ closing ++ r))).isSome := by
  have hk := (keyword?_eq_some_iff (t := opening ++ b ++ kw ++ (e ++ closing ++ r)) hkw).2
    ⟨b, hb, rfl, rfl⟩
  have htrim : Text.trimStart (e ++ closing ++ r) = closing ++ r := by
    rw [List.append_assoc]
    exact Text.trimStart_append he (by simpa [closing] using (by decide : isBlank '%' = false))
  have hno : ((closing ++ r).takeWhile fun c => isWordChar c || c == '-') = [] :=
    List.takeWhile_cons_of_neg (by decide)
  obtain ⟨tail, htail⟩ := Option.isSome_iff_exists.1
    ((isSome_blanksThen?_iff (t := e ++ closing ++ r) closing_ne_nil closing_head).2
      ⟨e, r, rfl, he⟩)
  simp only [labelled, Option.bind_eq_bind, hk, Option.bind_some, htrim, hno,
    List.isEmpty_nil, Bool.or_true, if_true, htail]
  rfl

omit hkw hb in
/-- A label ends where the blanks or the end of the tag begin. -/
theorem dropWhile_label {label : Text} (hla : label.all isLabelPart) (r : Text) :
    (label ++ (e ++ closing ++ r)).dropWhile isLabelPart = e ++ closing ++ r := by
  have hstop : ∀ c ∈ (e ++ closing ++ r).head?, isLabelPart c = false := by
    cases e with
    | nil => simpa [closing] using (by decide : isLabelPart '%' = false)
    | cons x xs =>
      simp only [List.all_cons, Bool.and_eq_true] at he
      simpa using not_isLabelPart_of_isBlank he.1
  rw [List.dropWhile_append_of_pos (by simpa using hla)]
  cases hx : e ++ closing ++ r with
  | nil => rfl
  | cons x xs => simp [hstop x (by simp [hx])]

theorem isSome_labelled_label {i label : Text} (hi : i ≠ []) (hib : i.all isBlank)
    (hl : label ≠ []) (hla : label.all isLabelPart) (r : Text) :
    (labelled kw (opening ++ b ++ kw ++ (i ++ label ++ (e ++ closing ++ r)))).isSome := by
  obtain ⟨l, ls, rfl⟩ := List.exists_cons_of_ne_nil hl
  have hlp : isLabelPart l = true := List.all_eq_true.1 hla l List.mem_cons_self
  have hlb : isBlank l = false := by
    cases hx : isBlank l with
    | false => rfl
    | true => simp [not_isLabelPart_of_isBlank hx] at hla
  have hhead : ∀ c ∈ ((l :: ls) ++ (e ++ closing ++ r)).head?, isBlank c = false := by
    simpa using hlb
  have hk := (keyword?_eq_some_iff
    (t := opening ++ b ++ kw ++ (i ++ (l :: ls) ++ (e ++ closing ++ r))) hkw).2 ⟨b, hb, rfl, rfl⟩
  have hind : Text.indent (i ++ (l :: ls) ++ (e ++ closing ++ r)) = i := by
    rw [List.append_assoc]
    exact Text.indent_append hib hhead
  have htrim : Text.trimStart (i ++ (l :: ls) ++ (e ++ closing ++ r)) =
      (l :: ls) ++ (e ++ closing ++ r) := by
    rw [List.append_assoc]
    exact Text.trimStart_append hib hhead
  have hdrop : ((l :: ls) ++ (e ++ closing ++ r)).dropWhile
      (fun c => isWordChar c || c == '-') = e ++ closing ++ r := dropWhile_label he hla r
  have htake : ((l :: ls) ++ (e ++ closing ++ r)).takeWhile isLabelPart ≠ [] := by simp [hlp]
  obtain ⟨tail, htail⟩ := Option.isSome_iff_exists.1
    ((isSome_blanksThen?_iff (t := e ++ closing ++ r) closing_ne_nil closing_head).2
      ⟨e, r, rfl, he⟩)
  unfold labelled
  simp only [Option.bind_eq_bind, hk, Option.bind_some, hind, htrim, hdrop]
  rw [if_neg (by simp only [Bool.or_eq_true, List.isEmpty_iff, not_or]; exact ⟨hi, htake⟩), htail]
  rfl

end Labelled

/-- **A tag that holds its keyword and perhaps a label.** -/
theorem isSome_labelled_iff {kw t : Text} (hkw : IsKeyword kw) :
    (labelled kw t).isSome ↔ (bare kw t).isSome ∨
      ∃ b i label e r, t = opening ++ b ++ kw ++ (i ++ label ++ (e ++ closing ++ r)) ∧
        b.all isBlank ∧ i ≠ [] ∧ i.all isBlank ∧ label ≠ [] ∧ label.all isLabelPart ∧
        e.all isBlank := by
  constructor
  · intro h
    obtain ⟨tag, htag⟩ := Option.isSome_iff_exists.1 h
    obtain ⟨-, r, ht⟩ := anchored_labelled kw htag
    obtain ⟨⟨b, i, e, hs, hb, hi, he, hne⟩, hla⟩ := isClosing_of_labelled_eq_some hkw htag
    by_cases hl : tag.argument = []
    · rw [hl] at hs
      exact .inl ((isSome_bare_iff hkw).2
        ⟨b, i ++ e, r, by rw [ht, hs]; simp, hb, by simpa using And.intro hi he⟩)
    · exact .inr ⟨b, i, tag.argument, e, r, by rw [ht, hs]; simp, hb, fun h => hl (hne h), hi, hl,
        hla, he⟩
  · rintro (h | ⟨b, i, label, e, r, rfl, hb, hi, hib, hl, hla, he⟩)
    · obtain ⟨b, e, r, rfl, hb, he⟩ := (isSome_bare_iff hkw).1 h
      exact isSome_labelled_bare hkw hb he r
    · exact isSome_labelled_label hkw hb he hi hib hl hla r

/-- **The tags that close a body**, without a label. -/
theorem isSome_bare_iff_isClosing {kw t : Text} (hkw : IsKeyword kw) :
    (bare kw t).isSome ↔ ∃ s r, t = s ++ r ∧ IsClosing kw [] s := by
  constructor
  · intro h
    obtain ⟨tag, htag⟩ := Option.isSome_iff_exists.1 h
    obtain ⟨-, r, ht⟩ := anchored_bare kw htag
    exact ⟨tag.source, r, ht, isClosing_of_bare_eq_some hkw htag⟩
  · rintro ⟨s, r, rfl, b, i, e, rfl, hb, hi, he, -⟩
    exact (isSome_bare_iff hkw).2 ⟨b, i ++ e, r, by simp, hb, by simpa using And.intro hi he⟩

/-- **The tags that close a body**, perhaps with a label. -/
theorem isSome_labelled_iff_isClosing {kw t : Text} (hkw : IsKeyword kw) :
    (labelled kw t).isSome ↔
      ∃ label s r, t = s ++ r ∧ IsClosing kw label s ∧ label.all isLabelPart := by
  constructor
  · intro h
    obtain ⟨tag, htag⟩ := Option.isSome_iff_exists.1 h
    obtain ⟨-, r, ht⟩ := anchored_labelled kw htag
    exact ⟨tag.argument, tag.source, r, ht, isClosing_of_labelled_eq_some hkw htag⟩
  · rintro ⟨label, s, r, rfl, hs, hla⟩
    by_cases hl : label = []
    · rw [hl] at hs
      exact (isSome_labelled_iff hkw).2 (.inl ((isSome_bare_iff_isClosing hkw).2 ⟨s, r, rfl, hs⟩))
    · obtain ⟨b, i, e, rfl, hb, hi, he, hne⟩ := hs
      exact (isSome_labelled_iff hkw).2
        (.inr ⟨b, i, label, e, r, by simp, hb, fun h => hl (hne h), hi, hl, hla, he⟩)

/-- **An interpolation**, on a text without line ends. -/
theorem isSome_interpolation_iff {t : Text} (ht : '\n' ∉ t) :
    (interpolation t).isSome ↔
      ∃ c r, t = openingBraces ++ c :: r ∧ closingBraces <:+: r := by
  unfold interpolation
  constructor
  · intro h
    obtain ⟨tag, htag⟩ := Option.isSome_iff_exists.1 h
    simp only [Option.bind_eq_bind, Option.bind_eq_some_iff] at htag
    obtain ⟨rest, ha, hw⟩ := htag
    obtain rfl := Text.after?_eq_some_iff.1 ha
    obtain ⟨i, x, r, -, rfl, -, -, hx, -⟩ := exists_of_withArgument?_eq_some hw
    obtain ⟨c, y, hc⟩ := List.exists_cons_of_ne_nil (l := i ++ x) (by simp [hx.ne_nil])
    refine ⟨c, y ++ (closingBraces ++ r), ?_, y, r, by simp⟩
    rw [← List.cons_append, ← hc]
    simp
  · rintro ⟨c, r, rfl, y, z, rfl⟩
    simp only [Option.bind_eq_bind, Text.after?_append, Option.bind_some]
    refine (isSome_withArgument?_iff closingBraces_ne_nil closingBraces_head).2
      ⟨[], c :: y, z, by simp, by simp, rfl,
        isArgument_of_newline_not_mem (by simp) fun h => ht ?_⟩
    rcases List.mem_cons.1 h with rfl | h <;> simp [*]

end Pattern

end Stencil
