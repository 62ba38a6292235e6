import Stencil.Proofs.Tag.Reach

/-!
# Where an argument ends

The argument of a tag is the first stretch behind which the closing delimiter stands, blanks aside
(`argument?_eq_some_iff`). So a tag with a keyword says the same whatever stands behind it, and its
source alone is the same tag again (`keyword_source`).
-/

namespace Stencil

namespace Tag

theorem blanksThen?_append {delimiter t tail : Text} (hne : delimiter ≠ [])
    (hd : ∀ c ∈ delimiter.head?, isBlank c = false) (h : blanksThen? delimiter t = some tail)
    (r : Text) : blanksThen? delimiter (t ++ r) = some tail := by
  obtain ⟨rfl, rest, ht⟩ := blanksThen?_eq_some_iff.1 h
  obtain ⟨c, cs, rfl⟩ := List.exists_cons_of_ne_nil hne
  have hi : Text.indent (t ++ r) = Text.indent t := by
    conv => lhs; rw [ht, List.append_assoc, List.append_assoc]
    exact Text.indent_append (Text.all_indent t) (by simpa using hd)
  exact blanksThen?_eq_some_iff.2 ⟨by rw [hi], rest ++ r, by rw [← List.append_assoc, ← ht]⟩

theorem blanksThen?_self {delimiter e : Text} (hd : ∀ c ∈ delimiter.head?, isBlank c = false)
    (he : e.all isBlank) : blanksThen? delimiter (e ++ delimiter) = some (e ++ delimiter) :=
  blanksThen?_eq_some_iff.2 ⟨by rw [Text.indent_append he hd], [], (List.append_nil _).symm⟩

theorem argument?_of_first {delimiter argument tail r : Text} (hne : argument ≠ [])
    (hn : '\n' ∉ argument) (hr : blanksThen? delimiter r = some tail)
    (hfirst : ∀ a q, argument = a ++ q → a ≠ [] → q ≠ [] → blanksThen? delimiter (q ++ r) = none) :
    argument? delimiter (argument ++ r) = some (argument, tail) := by
  induction argument with
  | nil => exact absurd rfl hne
  | cons c argument ih =>
    have hc : c ≠ '\n' := fun e => hn (by simp [e])
    rw [List.cons_append, argument?, if_neg hc]
    cases argument with
    | nil => simp [hr]
    | cons d argument =>
      have hrest : argument? delimiter (d :: argument ++ r) = some (d :: argument, tail) := by
        refine ih (by simp) (fun h => hn (List.mem_cons_of_mem c h)) ?_
        rintro a q haq ha hq
        exact hfirst (c :: a) q (by rw [haq]; rfl) (by simp) hq
      simp only [hfirst [c] (d :: argument) rfl (by simp) (by simp), hrest, Option.map_some]

theorem exists_first_of_argument? {delimiter t argument tail : Text}
    (h : argument? delimiter t = some (argument, tail)) :
    argument ≠ [] ∧ '\n' ∉ argument ∧
      ∃ r, t = argument ++ r ∧ blanksThen? delimiter r = some tail ∧
        ∀ a q, argument = a ++ q → a ≠ [] → q ≠ [] → blanksThen? delimiter (q ++ r) = none := by
  induction t generalizing argument with
  | nil => cases h
  | cons c cs ih =>
    unfold argument? at h
    split at h
    · cases h
    next hc =>
    split at h
    · next tail' hb =>
      obtain ⟨rfl, rfl⟩ : [c] = argument ∧ tail' = tail := by simpa using h
      refine ⟨by simp, by simpa using Ne.symm hc, cs, rfl, hb, fun a q haq ha hq => ?_⟩
      -- one character has no two parts
      rcases List.append_eq_singleton_iff.1 haq.symm with ⟨rfl, -⟩ | ⟨-, rfl⟩
      · exact absurd rfl ha
      · exact absurd rfl hq
    · next hb =>
      simp only [Option.map_eq_some_iff, Prod.exists, Prod.mk.injEq] at h
      obtain ⟨argument', tail', ha, rfl, rfl⟩ := h
      obtain ⟨hne, hn, r, rfl, hr, hfirst⟩ := ih ha
      refine ⟨by simp, by simp [Ne.symm hc, hn], r, rfl, hr, fun a q haq ha hq => ?_⟩
      obtain ⟨d, a, rfl⟩ := List.exists_cons_of_ne_nil ha
      obtain ⟨rfl, rfl⟩ : c = d ∧ argument' = a ++ q := List.cons.inj haq
      cases a with
      | nil => exact hb
      | cons d a => exact hfirst (d :: a) q rfl (by simp) hq

/-- The argument is the first stretch of one line behind which the delimiter stands. -/
theorem argument?_eq_some_iff {delimiter t argument tail : Text} :
    argument? delimiter t = some (argument, tail) ↔
      argument ≠ [] ∧ '\n' ∉ argument ∧
        ∃ r, t = argument ++ r ∧ blanksThen? delimiter r = some tail ∧
          ∀ a q, argument = a ++ q → a ≠ [] → q ≠ [] → blanksThen? delimiter (q ++ r) = none := by
  constructor
  · exact exists_first_of_argument?
  · rintro ⟨hne, hn, r, rfl, hr, hfirst⟩
    exact argument?_of_first hne hn hr hfirst

/-- What stands behind a tag does not matter to its argument. -/
theorem argument?_take {delimiter argument tail r : Text} (hne : delimiter ≠ [])
    (hd : ∀ c ∈ delimiter.head?, isBlank c = false)
    (h : argument? delimiter (argument ++ (tail ++ r)) = some (argument, tail)) :
    argument? delimiter (argument ++ tail) = some (argument, tail) := by
  obtain ⟨ha, hn, r', hr', hb, hfirst⟩ := argument?_eq_some_iff.1 h
  obtain rfl := List.append_cancel_left hr'
  obtain ⟨htail, -⟩ := blanksThen?_eq_some_iff.1 hb
  refine argument?_eq_some_iff.2 ⟨ha, hn, tail, rfl, ?_, fun a q haq ha hq => ?_⟩
  · rw [htail]
    exact blanksThen?_self hd (Text.all_indent _)
  · cases hs : blanksThen? delimiter (q ++ tail) with
    | none => rfl
    | some x =>
      have hx := blanksThen?_append hne hd hs r
      rw [List.append_assoc, hfirst a q haq ha hq] at hx
      cases hx

theorem withArgument?_source {head t : Text} {blanks : Nat} {tag : Tag} {x r : Text}
    (h : withArgument? head closing blanks t = some tag) (hx : tag.source = head ++ x)
    (ht : t = x ++ r) : withArgument? head closing blanks x = some tag := by
  unfold withArgument? at h
  simp only at h
  split at h
  · cases h
  next hlen =>
  split at h
  · next argument tail ha =>
    obtain rfl := Option.some.inj h
    obtain ⟨hne, -, r', hr', hb, -⟩ := argument?_eq_some_iff.1 ha
    obtain ⟨-, rest, rfl⟩ := blanksThen?_eq_some_iff.1 hb
    have hsame : head ++ (Text.indent t ++ (argument ++ tail)) = head ++ x := by
      rw [← hx]
      simp
    obtain rfl := List.append_cancel_left hsame
    have hhead : ∀ c ∈ (argument ++ tail).head?, isBlank c = false := by
      obtain ⟨c, cs, rfl⟩ := List.exists_cons_of_ne_nil hne
      have := Text.head_trimStart t
      rw [hr'] at this
      simpa using this
    have hi := Text.indent_append (Text.all_indent t) hhead
    have hs := Text.trimStart_append (Text.all_indent t) hhead
    rw [hr'] at ha
    unfold withArgument?
    simp only [hi, hs, if_neg hlen, argument?_take closing_ne_nil closing_head ha]
  · next hnone =>
    split at h
    · next hs =>
      obtain rfl := Option.some.inj h
      have hsame : head ++ (Text.indent t ++ closing) = head ++ x := by
        rw [← hx]
        simp
      obtain rfl := List.append_cancel_left hsame
      have hi := Text.indent_append (Text.all_indent t) closing_head
      have htrim := Text.trimStart_append (Text.all_indent t) closing_head
      have hstarts : Text.startsWith closing closing = true := rfl
      unfold withArgument?
      simp only [hi, htrim, if_neg hlen, hstarts, Bool.true_and, (Bool.and_eq_true_iff.1 hs).2]
      rfl
    · cases h

/-! ## Tags that end at their first closing delimiter -/

theorem argument?_closing {x e : Text} (hx : x ≠ []) (hn : '\n' ∉ x)
    (hlast : ∀ c ∈ x.getLast?, isBlank c = false) (he : e.all isBlank)
    (hfirst : ¬ stop false <:+: x ++ e ++ [stopHead false]) :
    argument? closing (x ++ (e ++ closing)) = some (x, e ++ closing) := by
  refine argument?_eq_some_iff.2 ⟨hx, hn, e ++ closing, rfl, blanksThen?_self closing_head he, ?_⟩
  rintro a q rfl - hq
  cases hb : blanksThen? closing (q ++ (e ++ closing)) with
  | none => rfl
  | some tail =>
    exfalso
    obtain ⟨rfl, r, hr⟩ := blanksThen?_eq_some_iff.1 hb
    have hnone : ¬ stop false <:+: q ++ e ++ [stopHead false] := fun h =>
      hfirst (h.trans ⟨a, [], by simp⟩)
    have hend : q ++ e ++ stop false = Text.indent (q ++ (e ++ closing)) ++ (stop false ++ r) := by
      rw [List.append_assoc]
      exact hr.trans (List.append_assoc ..)
    -- the end of the argument would be blank
    have hblank := Text.all_indent (q ++ (e ++ closing))
    rw [← (eq_of_append_stop hnone hend).1, List.all_append] at hblank
    have hfalse := hlast (q.getLast hq) (by
      rw [List.getLast?_append, List.getLast?_eq_some_getLast hq]
      rfl)
    rw [List.all_eq_true.1 (Bool.and_eq_true_iff.1 hblank).1 _ (List.getLast_mem hq)] at hfalse
    cases hfalse

/-- The argument of a tag that ends at its first closing delimiter is all that stands behind the
keyword, without the blanks around it. -/
theorem withArgument?_closing {head y y' : Text} {c : Char} (hy : y = c :: y')
    (hc : isBlank c = true) (hne : y' ≠ []) (hn : '\n' ∉ y)
    (hfirst : ¬ stop false <:+: y ++ [stopHead false]) :
    withArgument? head closing 1 (y ++ closing) = some ⟨head ++ (y ++ closing), y.trim⟩ := by
  by_cases hblank : y.all isBlank = true
  · have hnone : argument? closing closing = none := rfl
    have hstarts : Text.startsWith closing closing = true := rfl
    have hany : (y.drop 1).any (· ≠ '\n') = true := by
      obtain ⟨d, ds, rfl⟩ := List.exists_cons_of_ne_nil hne
      have hd : d ≠ '\n' := fun e => hn (by simp [hy, e])
      simp [hy, hd]
    unfold withArgument?
    simp only [Text.indent_append hblank closing_head, Text.trimStart_append hblank closing_head,
      hnone, hstarts, hany, Text.trim_of_all hblank]
    simp [hy]
  · obtain ⟨i, e, hsplit, hi, he⟩ := Text.exists_append_trim y
    have hhead := Text.head_trim y
    have hlast := Text.getLast_trim y
    generalize y.trim = x at hsplit hhead hlast ⊢
    have hx : x ≠ [] := by
      rintro rfl
      exact hblank (by rw [hsplit]; simp [hi, he])
    obtain ⟨d, ds, hds⟩ := List.exists_cons_of_ne_nil hx
    have hlen : ¬ i.length < 1 := by
      cases i with
      | cons b i => simp
      | nil =>
        obtain rfl : c = d := by
          rw [hy, hds] at hsplit
          exact (List.cons.inj hsplit).1
        rw [hhead c (by rw [hds]; rfl)] at hc
        cases hc
    have hhead' : ∀ c ∈ (x ++ (e ++ closing)).head?, isBlank c = false := by
      rw [hds] at hhead ⊢
      exact hhead
    have harg : argument? closing (x ++ (e ++ closing)) = some (x, e ++ closing) :=
      argument?_closing hx (fun h => hn (by rw [hsplit]; simp [h])) hlast he fun h =>
        hfirst (h.trans ⟨i, [], by rw [hsplit]; simp⟩)
    have hassoc : y ++ closing = i ++ (x ++ (e ++ closing)) := by rw [hsplit]; simp
    rw [hassoc]
    unfold withArgument?
    simp only [Text.indent_append hi hhead', Text.trimStart_append hi hhead', harg, if_neg hlen]
    simp

end Tag

namespace Pattern

open Tag

/-- **The source of a tag** alone is the same tag. -/
theorem keyword_source {kw t : Text} {tag : Tag} (hkw : IsKeyword kw)
    (h : keyword kw t = some tag) : keyword kw tag.source = some tag := by
  unfold keyword at h
  simp only [Option.bind_eq_bind, Option.bind_eq_some_iff] at h
  obtain ⟨⟨head, rest⟩, hk, hw⟩ := h
  obtain ⟨b, hb, rfl, rfl⟩ := (keyword?_eq_some_iff hkw).1 hk
  obtain ⟨x, r, hx, rfl⟩ := withArgument?_start hw
  unfold keyword
  rw [hx]
  simp only [Option.bind_eq_bind, (keyword?_eq_some_iff hkw).2 ⟨b, hb, rfl, rfl⟩, Option.bind_some]
  exact withArgument?_source hw hx rfl

/-- **A tag with a keyword** that ends at its first closing delimiter: behind the keyword there is a
blank and more, and the argument is what is left of it once trimmed. -/
theorem keyword_enclose_eq_some_iff {kw inner : Text} {tag : Tag} (hkw : IsKeyword kw)
    (hn : '\n' ∉ inner) (hfirst : ¬ stop false <:+: inner ++ [stopHead false]) :
    keyword kw (enclose false inner) = some tag ↔
      ∃ b c y, inner = b ++ (kw ++ c :: y) ∧ b.all isBlank ∧ isBlank c = true ∧ y ≠ [] ∧
        tag = ⟨enclose false inner, Text.trim (c :: y)⟩ := by
  have hshape : ∀ b c y, inner = b ++ (kw ++ c :: y) → b.all isBlank → isBlank c = true → y ≠ [] →
      keyword kw (enclose false inner) = some ⟨enclose false inner, Text.trim (c :: y)⟩ := by
    rintro b c y rfl hb hc hy
    have hsplit : enclose false (b ++ (kw ++ c :: y)) =
        opening ++ b ++ kw ++ (c :: y ++ closing) := by
      simp [enclose, start, stop]
    have hw : withArgument? (opening ++ b ++ kw) closing 1 (c :: y ++ closing) = _ :=
      withArgument?_closing rfl hc hy
        (fun h => hn (List.mem_append_right _ (List.mem_append_right _ h)))
        (fun h => hfirst (h.trans ⟨b ++ kw, [], by simp⟩))
    unfold keyword
    rw [hsplit]
    simp only [Option.bind_eq_bind, (keyword?_eq_some_iff hkw).2 ⟨b, hb, rfl, rfl⟩,
      Option.bind_some, hw]
  constructor
  · intro h
    obtain ⟨b, i, x, r, hs, ht, hb, hi, hib, hx, -⟩ := exists_of_keyword_eq_some hkw h
    obtain ⟨c, i, rfl⟩ := List.exists_cons_of_ne_nil hi
    have hc : isBlank c = true := List.all_eq_true.1 hib c (List.mem_cons_self ..)
    have hend : inner ++ stop false = b ++ (kw ++ c :: (i ++ x)) ++ (stop false ++ r) := by
      rw [hs] at ht
      simpa [enclose, start, stop] using ht
    obtain ⟨hinner, -⟩ := eq_of_append_stop hfirst hend
    have hne : i ++ x ≠ [] := by simp [hx.ne_nil]
    exact ⟨b, c, i ++ x, hinner, hb, hc, hne,
      Option.some.inj (h.symm.trans (hshape b c (i ++ x) hinner hb hc hne))⟩
  · rintro ⟨b, c, y, hinner, hb, hc, hy, rfl⟩
    exact hshape b c y hinner hb hc hy

/-- A text that is one span and begins with a tag with a keyword has one pair of delimiters. -/
theorem exists_inner_of_keyword {kw t : Text} {tag : Tag} (hkw : IsKeyword kw)
    (hspan : span t = some ⟨t, []⟩) (htag : keyword kw t = some tag) :
    ∃ inner, t = enclose false inner ∧ '\n' ∉ inner ∧
      ¬ stop false <:+: inner ++ [stopHead false] := by
  obtain ⟨braces, inner, -, hsource, -, hn, hfirst⟩ := span_eq_some_iff.1 hspan
  have ht : t = enclose braces inner := congrArg Tag.source hsource
  cases braces with
  | false => exact ⟨inner, ht, hn, hfirst⟩
  | true =>
    -- no tag with a keyword begins with two braces
    obtain ⟨b, i, x, r, hs, hopen, -⟩ := exists_of_keyword_eq_some hkw htag
    rw [hs, ht] at hopen
    simp [enclose, start, opening, openingBraces] at hopen

end Pattern

end Stencil
