import Stencil.Proofs.Expansion.Confinement
import Stencil.Proofs.Expansion.Headers
import Stencil.Proofs.Expansion.Numbering
import Stencil.Proofs.Expansion.Stability

/-!
# The spans of a copied line

The copy of a line has the text of the line outside its tags, and a tag for each tag of the line
that does not become the number of the iteration (`expand_keeps_spans`). Resolving keeps the spans
by `scan_resolveText`. Numbering keeps them (`scan_numbered`), as an interpolation of the number
does not reach over the end of a span (`Pattern.index_within_span`) and digits open and close
nothing, if no such interpolation stands inside another span between double braces
(`Iteration.IndexApart`).
-/

namespace Stencil

open Tag

namespace Pattern

/-! ## Where the interpolation of the number ends -/

/-- The interpolation of the number does not reach over the end of a span. -/
theorem index_within_span {braces : Bool} {inner a y rest : Text} {tag : Tag}
    (hy : enclose braces inner = a ++ y) (hne : y ≠ []) (h : index (y ++ rest) = some tag) :
    ∃ y', y = tag.source ++ y' := by
  obtain ⟨inner', rest', hd, rfl, ht⟩ := exists_of_index_eq_some h
  rcases List.append_eq_append_iff.1 ht with ⟨x, hx, -⟩ | ⟨y', hy', -⟩
  · cases x with
    | nil => exact ⟨[], by simpa using hx.symm⟩
    | cons e x =>
      exfalso
      have hclosers : ∀ braces, (stop braces).countP (fun c => c == '}' || c == '%') = 2 := by
        decide
      have hcount : (enclose true inner').countP (fun c => c == '}' || c == '%') = 2 := by
        have hi : inner'.countP (fun c => c == '}' || c == '%') = 0 :=
          List.countP_eq_zero.2 fun c hc => by
            have := hd c hc
            simp only [isDelimiterPart, Bool.or_eq_false_iff] at this
            simp [this]
        rw [enclose, List.countP_append, List.countP_append, hi, hclosers]
        rfl
      -- the last character of the interpolation closes, too, and is not part of `y`
      have hlast : 0 < (e :: x).countP (fun c => c == '}' || c == '%') := by
        have hmem : '}' ∈ e :: x := by
          have hl : (y ++ e :: x).getLast? = some '}' := by
            rw [← hx]
            simp [enclose, stop_eq_cons]
          rw [List.getLast?_append_of_ne_nil _ (by simp)] at hl
          exact List.mem_of_getLast? hl
        exact List.countP_pos_iff.2 ⟨_, hmem, rfl⟩
      rw [hx, List.countP_append] at hcount
      rcases List.append_eq_append_iff.1 hy with ⟨w, -, hw⟩ | ⟨w, -, rfl⟩
      · -- a part of the closing delimiter does not open
        obtain ⟨d, y, rfl⟩ := List.exists_cons_of_ne_nil hne
        have hd' : d ∈ stop braces := by rw [hw]; simp
        obtain rfl : '{' = d := (List.cons.inj hx).1
        cases braces <;> revert hd' <;> decide
      · rw [List.countP_append, hclosers] at hcount
        omega
  · exact ⟨y', hy'⟩

/-- It holds nothing but its word, blanks and braces. -/
theorem index_before {y z : Text} {d : Char} {tag : Tag} (hblank : isBlank d = false)
    (hd : d ∉ "\x7bindex\x7d".toList) (h : index (y ++ d :: z) = some tag) :
    ∃ y', y = tag.source ++ y' := by
  obtain ⟨b, e, rest, hb, he, rfl, ht⟩ := exists_blanks_of_index_eq_some h
  rcases List.append_eq_append_iff.1 ht with ⟨x, hx, hz⟩ | ⟨y', hy', -⟩
  · cases x with
    | nil => exact ⟨[], by simpa using hx.symm⟩
    | cons c x =>
      obtain ⟨rfl, -⟩ := List.cons.inj hz
      have hm : d ∈ enclose true (b ++ "index".toList ++ e) := by
        rw [show enclose true (b ++ "index".toList ++ e) = y ++ d :: x from hx]
        simp
      have hfree : ∀ {s : Text}, s.all isBlank → d ∉ s := fun hs hm => by
        rw [List.all_eq_true.1 hs d hm] at hblank
        cases hblank
      simp only [enclose, start, stop, openingBraces, closingBraces, List.mem_append, hfree hb,
        hfree he, if_true] at hm
      simp_all
  · exact ⟨y', hy'⟩

theorem index_eq_none_of_ne {c : Char} (hc : c ≠ '{') (t : Text) : index (c :: t) = none := by
  have hnone : Text.after? openingBraces (c :: t) = none := by
    simp [openingBraces, Text.after?, Ne.symm hc]
  simp [index, hnone]

/-- A text is scanned part by part if no interpolation of the number reaches over the end of the
first part. -/
theorem scan_index_append {s rest : Text}
    (h : ∀ a y tag, s = a ++ y → y ≠ [] → index (y ++ rest) = some tag →
      ∃ y', y = tag.source ++ y') :
    index.scan (s ++ rest) = index.scan s ++ index.scan rest := by
  have hstep : ∀ y a, s = a ++ y → index.scan (y ++ rest) = index.scan y ++ index.scan rest := by
    intro y
    induction y using scan_induction anchored_index with
    | nil => exact fun _ _ => rfl
    | char c cs hc ih =>
      intro a ha
      have hnone : index (c :: (cs ++ rest)) = none := by
        cases hi : index (c :: (cs ++ rest)) with
        | none => rfl
        | some tag =>
          obtain ⟨y', hy'⟩ := h a (c :: cs) tag ha (by simp) hi
          obtain ⟨inner, -, -, rfl, -⟩ := exists_of_index_eq_some hi
          rw [← List.cons_append, hy', List.append_assoc] at hi
          rw [hy', index_append hi] at hc
          cases hc
      rw [List.cons_append, scan_char hnone, scan_char hc, ih (a ++ [c]) (by simpa using ha)]
      rfl
    | tag tag y hy ih =>
      intro a ha
      have hsome : index (tag.source ++ (y ++ rest)) = some tag := by
        obtain ⟨inner, -, -, rfl, -⟩ := exists_of_index_eq_some hy
        exact index_append hy _
      rw [List.append_assoc, scan_tag anchored_index hsome, scan_tag anchored_index hy,
        ih (a ++ tag.source) (by simpa using ha)]
      rfl
  exact hstep s [] rfl

/-- The texts around the tags. -/
def gaps (fs : List Fragment) : List Text := (cut fs).1 :: (cut fs).2.map Prod.snd

theorem span_of_index {t : Text} {tag : Tag} (h : index t = some tag) (hn : '\n' ∉ tag.source) :
    span t = some tag := by
  obtain ⟨inner, rest, hd, rfl, rfl⟩ := exists_of_index_eq_some h
  exact span_enclose true hd (fun hi => hn (by simp [enclose, hi])) rest

end Pattern

namespace Iteration

variable (it : Iteration)

/-- The interpolations of the number stand by themselves: each of them is on one line, and a span
between double braces that holds one is nothing else. -/
def IndexApart (t : Text) : Prop :=
  (∀ tag ∈ Pattern.index.tags t, '\n' ∉ tag.source) ∧
    ∀ tag ∈ Pattern.span.tags t, Text.startsWith openingBraces tag.source = true →
      Pattern.index.occursIn tag.source = true → Pattern.index tag.source = some tag

instance : DecidablePred IndexApart := fun t =>
  inferInstanceAs (Decidable ((∀ tag ∈ Pattern.index.tags t, _) ∧ ∀ tag ∈ Pattern.span.tags t, _))

/-- What becomes of a part of a text when the text is numbered. -/
def numberFragment : Fragment → List Fragment
  | .char c => [.char c]
  | .tag tag =>
    if Pattern.index tag.source = some tag then it.number.map .char
    else [.tag ⟨it.numbered tag.source, []⟩]

variable {it}

theorem numbered_append {s rest : Text}
    (h : ∀ a y tag, s = a ++ y → y ≠ [] → Pattern.index (y ++ rest) = some tag →
      ∃ y', y = tag.source ++ y') :
    it.numbered (s ++ rest) = it.numbered s ++ it.numbered rest := by
  rw [numbered, Pattern.replace, Pattern.scan_index_append h, List.flatMap_append]
  rfl

theorem numbered_enclose_append (braces : Bool) (inner rest : Text) :
    it.numbered (enclose braces inner ++ rest) =
      it.numbered (enclose braces inner) ++ it.numbered rest :=
  numbered_append fun _ _ _ => Pattern.index_within_span

theorem numbered_cons_of_ne {c : Char} (hc : c ≠ '{') (t : Text) :
    it.numbered (c :: t) = c :: it.numbered t :=
  Pattern.replace_char (Pattern.index_eq_none_of_ne hc t)

theorem numbered_append_cons {d : Char} (hblank : isBlank d = false)
    (hd : d ∉ "\x7bindex\x7d".toList) (s t : Text) :
    it.numbered (s ++ d :: t) = it.numbered s ++ d :: it.numbered t := by
  rw [numbered_append fun _ _ _ _ _ => Pattern.index_before hblank hd,
    numbered_cons_of_ne fun e => hd (by simp [e])]

theorem numbered_interpolation {x : Text} (h : Pattern.index x = some ⟨x, []⟩) :
    it.numbered x = it.number := by
  have htag : it.numbered (x ++ []) = it.number ++ [] :=
    Pattern.replace_tag Pattern.anchored_index ⟨x, []⟩ (by simpa using h)
  rwa [List.append_nil, List.append_nil] at htag

/-! ## A tag with a number in it -/

/-- A tag that does not stand between double braces is numbered between its delimiters. -/
theorem numbered_enclose_false (inner : Text) :
    it.numbered (enclose false inner) = enclose false (it.numbered inner) := by
  have hsplit : enclose false inner = '{' :: '%' :: (inner ++ '%' :: ['}']) := by
    simp [enclose, start, stop, opening, closing]
  have hbrace : ∀ t, it.numbered ('{' :: '%' :: t) = '{' :: it.numbered ('%' :: t) := fun _ =>
    Pattern.replace_char rfl
  have hend : it.numbered ['}'] = ['}'] := rfl
  rw [hsplit, hbrace, numbered_cons_of_ne (by decide),
    numbered_append_cons (by decide) (by decide), hend]
  simp [enclose, start, stop, opening, closing]

theorem span_numbered_enclose_false {inner rest : Text} (hn : '\n' ∉ inner)
    (hfirst : ¬ stop false <:+: inner ++ [stopHead false]) :
    Pattern.span (enclose false (it.numbered inner) ++ rest) =
      some ⟨enclose false (it.numbered inner), []⟩ := by
  refine Pattern.span_eq_some_iff.2
    ⟨false, _, rest, rfl, rfl, newline_not_mem_numbered hn, fun hi => hfirst ?_⟩
  have hconcat : it.numbered (inner ++ [stopHead false]) = it.numbered inner ++ [stopHead false] :=
    numbered_append_cons (by decide) (by decide) inner []
  obtain ⟨a, u, h⟩ := hi
  rw [← hconcat, List.append_assoc] at h
  have hstop : ∀ c ∈ stop false, c.isDigit = false := by decide
  obtain ⟨a, u, ht, -⟩ := infix_of_numbered hstop (stop_ne_nil false) h.symm
  exact ⟨a, u, by rw [ht, List.append_assoc]⟩

/-! ## What an opening delimiter leaves open -/

theorem head?_numbered_eq_brace {t : Text} (h : (it.numbered t).head? = some '}') :
    t.head? = some '}' := by
  obtain ⟨u', hu'⟩ := List.head?_eq_some_iff.1 h
  obtain ⟨u, rfl, -⟩ := append_of_numbered (s := ['}']) (by decide) hu'
  rfl

/-- **A number closes nothing** that was left open. -/
theorem upTo?_numbered {braces : Bool} {t : Text}
    (hindex : ∀ tag ∈ Pattern.index.tags t, '\n' ∉ tag.source)
    (h : upTo? (stop braces) t = none) : upTo? (stop braces) (it.numbered t) = none := by
  induction t using Pattern.scan_induction Pattern.anchored_index with
  | nil => rfl
  | char c cs hc ih =>
    rw [Pattern.tags_char hc] at hindex
    rw [numbered, Pattern.replace_char hc, ← numbered]
    by_cases hcn : c = '\n'
    · rw [hcn]
      exact upTo?_stop_newline braces _
    · rw [upTo?_stop_cons_eq_none_iff hcn] at h ⊢
      exact ⟨fun hm => h.1 ⟨hm.1, head?_numbered_eq_brace hm.2⟩, ih hindex h.2⟩
  | tag tag rest ht ih =>
    rw [Pattern.tags_tag Pattern.anchored_index tag ht] at hindex
    rw [numbered, Pattern.replace_tag Pattern.anchored_index tag ht, ← numbered]
    have hrest := ((upTo?_append_eq_none_iff (hindex tag (List.mem_cons_self ..))).1 h).2
    have hdigits : ∀ {c : Char}, c.isDigit = false → c ∉ it.number := fun hc hm => by
      rw [number_isDigit _ hm] at hc
      cases hc
    have hstop : stopHead braces ∉ it.number := hdigits (by cases braces <;> decide)
    refine (upTo?_append_eq_none_iff (hdigits (by decide))).2 ⟨?_,
      ih (fun tag htag => hindex tag (List.mem_cons_of_mem _ htag)) hrest⟩
    rw [stop_infix_append_of_not_mem hstop]
    cases (it.numbered rest).head? with
    | none => simp [stop_ne_nil]
    | some c => exact not_stop_infix_singleton braces c

/-- What begins outside the spans with an opening delimiter is no span afterwards either. -/
theorem span_char_numbered {c : Char} {cs : Text} (hspan : Pattern.span (c :: cs) = none)
    (hindex : ∀ tag ∈ Pattern.index.tags cs, '\n' ∉ tag.source) :
    Pattern.span (c :: it.numbered cs) = none := by
  rw [← Option.not_isSome_iff_eq_none]
  intro hsome
  obtain ⟨braces, r, hr⟩ := Pattern.exists_start_of_isSome_span hsome
  obtain ⟨d, hd, hdigit⟩ : ∃ d, start braces = ['{', d] ∧ d.isDigit = false := by
    cases braces <;> exact ⟨_, rfl, by decide⟩
  have hsplit : ∀ v, start braces ++ v = '{' :: d :: v := fun v => by rw [hd]; rfl
  rw [hsplit] at hr
  obtain ⟨rfl, hcs⟩ := List.cons.inj hr
  obtain ⟨v, rfl, rfl⟩ := append_of_numbered (s := [d]) (by simpa using hdigit) hcs
  -- the second character of the delimiter begins no interpolation of the number, as it stays
  have hnone : Pattern.index (d :: v) = none := by
    cases hi : Pattern.index (d :: v) with
    | none => rfl
    | some tag =>
      obtain ⟨-, w, hw⟩ := Pattern.anchored_index hi
      rw [List.singleton_append, hw] at hcs
      rw [hw] at hi
      rw [numbered, Pattern.replace_tag Pattern.anchored_index tag hi] at hcs
      obtain ⟨e, ds, hds⟩ := List.exists_cons_of_ne_nil (l := it.number) number_ne_nil
      have he : e.isDigit = true := number_isDigit e (by rw [hds]; simp)
      rw [← number, hds] at hcs
      obtain rfl : e = d := (List.cons.inj hcs).1
      rw [he] at hdigit
      cases hdigit
  rw [List.singleton_append, Pattern.tags_char hnone] at hindex
  have hopen : upTo? (stop braces) v = none := by
    rw [List.singleton_append, ← hsplit, Pattern.span_of_start, Option.map_eq_none_iff] at hspan
    exact hspan
  rw [hr, ← hsplit, Pattern.span_of_start, upTo?_numbered hindex hopen] at hsome
  cases hsome

/-! ## The spans -/

/-- **Numbering a text** turns the interpolations of the number into the number, leaves each other
span one span and makes no others. -/
theorem scan_numbered {t : Text} (h : IndexApart t) :
    Pattern.span.scan (it.numbered t) = (Pattern.span.scan t).flatMap it.numberFragment := by
  obtain ⟨hindex, hapart⟩ := h
  induction t using Pattern.scan_induction Pattern.anchored_span with
  | nil => rfl
  | char c cs hspan ih =>
    have hnone : Pattern.index (c :: cs) = none := by
      cases hi : Pattern.index (c :: cs) with
      | none => rfl
      | some tag =>
        obtain ⟨-, rest, hrest⟩ := Pattern.anchored_index hi
        rw [hrest] at hi hindex
        rw [Pattern.tags_tag Pattern.anchored_index tag hi] at hindex
        rw [hrest, Pattern.span_of_index hi (hindex tag (List.mem_cons_self ..))] at hspan
        cases hspan
    rw [Pattern.tags_char hnone] at hindex
    rw [Pattern.tags_char hspan] at hapart
    rw [numbered, Pattern.replace_char hnone, ← numbered,
      Pattern.scan_char (span_char_numbered hspan hindex), Pattern.scan_char hspan,
      ih hindex hapart]
    rfl
  | tag tag rest hspan ih =>
    obtain ⟨braces, inner, -, rfl, -, hn, hfirst⟩ := Pattern.span_eq_some_iff.1 hspan
    rw [Pattern.tags_tag Pattern.anchored_span _ hspan] at hapart
    have hindex' : ∀ tag ∈ Pattern.index.tags rest, '\n' ∉ tag.source := by
      intro tag htag
      refine hindex tag ?_
      rw [Pattern.tags, Pattern.scan_index_append fun _ _ _ => Pattern.index_within_span,
        List.filterMap_append]
      exact List.mem_append_right _ htag
    have hrest := ih hindex' fun tag htag => hapart tag (List.mem_cons_of_mem _ htag)
    rw [Pattern.scan_tag Pattern.anchored_span hspan, List.flatMap_cons, ← hrest]
    show Pattern.span.scan (it.numbered (enclose braces inner ++ rest)) = _
    rw [numbered_enclose_append]
    by_cases hi : Pattern.index (enclose braces inner) = some ⟨enclose braces inner, []⟩
    · rw [numberFragment, if_pos hi, numbered_interpolation hi, scan_append_digits number_isDigit]
    · rw [numberFragment, if_neg hi]
      let copy : Tag := ⟨it.numbered (enclose braces inner), []⟩
      have hcopy : Pattern.span (copy.source ++ it.numbered rest) = some copy := by
        show Pattern.span (it.numbered (enclose braces inner) ++ it.numbered rest) =
          some ⟨it.numbered (enclose braces inner), []⟩
        cases braces with
        | false =>
          rw [numbered_enclose_false]
          exact span_numbered_enclose_false hn hfirst
        | true =>
          -- no interpolation of the number stands in the span
          have hnone : Pattern.index.occursIn (enclose true inner) = false :=
            Bool.eq_false_iff.2 fun ho =>
              hi (hapart _ (List.mem_cons_self ..) (Text.startsWith_iff.2 ⟨_, rfl⟩) ho)
          rw [numbered, Pattern.replace_of_not_occursIn Pattern.anchored_index hnone]
          exact Pattern.span_eq_some_iff.2 ⟨true, inner, _, rfl, rfl, hn, hfirst⟩
      exact Pattern.scan_tag Pattern.anchored_span hcopy

/-! ## The span that becomes the number -/

/-- The interpolation of the number has one path. -/
theorem paths_interpolation {x : Text} (h : Pattern.index x = some ⟨x, []⟩) :
    '.' ∉ x ∧ Tag.paths ⟨x, []⟩ = ["index".toList] := by
  obtain ⟨b, e, -, hb, he, hx, -⟩ := Pattern.exists_blanks_of_index_eq_some h
  obtain rfl : x = enclose true (b ++ "index".toList ++ e) := congrArg Tag.source hx
  constructor
  · have hdot : ∀ {s : Text}, s.all isBlank → '.' ∉ s := fun hs hm =>
      absurd (List.all_eq_true.1 hs _ hm) (by decide)
    simp [enclose, start, stop, openingBraces, closingBraces, hdot hb, hdot he]
  · have htail := separates_append (separates_of_isBlank he) (separates_stop true)
    have hnone : Tag.pathsFrom (.plain false) (e ++ stop true) = [] := by
      have hall : Tag.pathsFrom (.plain false) (e ++ stop true ++ []) = _ :=
        pathsFrom_separators htail []
      rwa [List.append_nil] at hall
    obtain ⟨c, cs, hcs⟩ := List.exists_cons_of_ne_nil (l := e ++ stop true) (by simp [stop_ne_nil])
    rw [hcs] at htail hnone
    have hsplit : enclose true (b ++ "index".toList ++ e) =
        (start true ++ b) ++ ('i' :: ("ndex".toList ++ c :: cs)) := by
      rw [← hcs]
      simp [enclose]
    have hword : ∀ d ∈ "ndex".toList, isPathPart d = true := by decide
    rw [Tag.paths, hsplit, pathsFrom_separators
      (separates_append (separates_start true) (separates_of_isBlank hb)),
      pathsFrom_start (by decide), pathsFrom_path hword (htail c (by simp)).1, hnone]
    rfl

section Collection

variable (hc : ∀ c ∈ it.header.collection, isPathPart c = true) (hne : it.header.collection ≠ [])
include hc hne

/-- A tag in which a path is rewritten holds a dot. -/
theorem dot_mem_resolveTag {tag : Tag} (he : EndsOutside tag.source)
    (h : ∃ p ∈ tag.paths, it.header.variableName ∈ Context.segments p) :
    '.' ∈ it.resolveTag tag.source := by
  refine (resolveFrom_induction (P := fun _ => True)
    (R := fun mode _ t t' => (∃ p ∈ Tag.pathsFrom mode t,
      it.header.variableName ∈ Context.segments p) → '.' ∈ t') ?_ ?_ ?_ tag.source).1 false he
    (fun _ _ => trivial) h
  · rintro mode joined hnil ⟨p, hp, -⟩
    rw [hnil] at hp
    cases hp
  · rintro mode joined c t t' ht ih hp
    rw [pathsFrom_pass ht] at hp
    exact List.mem_cons_of_mem c (ih hp)
  · rintro w c t t' hwne hw hstart hcp - ih ⟨p, hp, hv⟩
    rcases mem_pathsFrom_word hw hcp hp with rfl | hp
    · obtain ⟨u, v, hres, -⟩ := Rewrites.exists_dot hc hne ⟨hw, hstart, hv, rfl⟩
      simp [hres]
    · exact List.mem_append_right _ (ih false ⟨p, hp, hv⟩)

/-- **The span that becomes the number** has been the interpolation of the number all along, and
the variable has another name. -/
theorem index_resolveTag_iff {x : Text} (he : EndsOutside x) :
    Pattern.index (it.resolveTag x) = some ⟨it.resolveTag x, []⟩ ↔
      Pattern.index x = some ⟨x, []⟩ ∧ it.header.variableName ≠ "index".toList := by
  have hone : Context.segments "index".toList = ["index".toList] := by decide
  by_cases hv : ∃ p ∈ Tag.paths ⟨x, []⟩, it.header.variableName ∈ Context.segments p
  · have hdot := dot_mem_resolveTag hc hne he hv
    refine iff_of_false (fun h => (paths_interpolation h).1 hdot) ?_
    rintro ⟨h, hname⟩
    obtain ⟨p, hp, hv⟩ := hv
    rw [(paths_interpolation h).2, List.mem_singleton] at hp
    rw [hp, hone, List.mem_singleton] at hv
    exact hname hv
  · have hself : it.resolveTag x = x :=
      resolveFrom_eq_self fun p hp => resolved_eq_self fun hm => hv ⟨p, hp, hm⟩
    rw [hself]
    refine ⟨fun h => ⟨h, fun hname => hv ⟨"index".toList, ?_, ?_⟩⟩, And.left⟩
    · rw [(paths_interpolation h).2]
      exact List.mem_singleton_self _
    · rw [hone, hname]
      exact List.mem_singleton_self _

end Collection

/-! ## The copy of a line -/

section Copy

variable (it : Iteration) (depth : Nat)

/-- The tag becomes the number in a line that stands inside `depth` loops within the body. -/
def IsNumbered (tag : Tag) : Prop :=
  depth = 0 ∧ Pattern.index tag.source = some tag ∧ it.header.variableName ≠ "index".toList

instance : DecidablePred (it.IsNumbered depth) := fun _ => inferInstanceAs (Decidable (_ ∧ _ ∧ _))

/-- A part of the line, with the number in place of its interpolation. -/
def showNumber : Fragment → List Fragment
  | .char c => [.char c]
  | .tag tag => if it.IsNumbered depth tag then it.number.map .char else [.tag tag]

/-- What becomes of a part of the line that does not become the number: text stays, and a tag
becomes one tag. -/
def copyFragment : Fragment → Fragment
  | .char c => .char c
  | .tag tag =>
    let source := it.resolveTag tag.source
    .tag ⟨if depth = 0 then it.numbered source else source, []⟩

end Copy

section Collection

variable {depth : Nat} (hc : ∀ c ∈ it.header.collection, isPathPart c = true)
  (hne : it.header.collection ≠ [])
include hc hne

/-- What becomes of a span. -/
theorem copyFragment_eq {tag : Tag} {t : Text} (h : tag ∈ Pattern.span.tags t) :
    (it.showNumber depth (.tag tag)).map (it.copyFragment depth) =
      if depth = 0 then it.numberFragment (it.resolveFragment (.tag tag))
      else [it.resolveFragment (.tag tag)] := by
  have he := endsOutside_of_mem_tags h
  obtain ⟨source, rfl⟩ : ∃ source, tag = ⟨source, []⟩ := by
    obtain ⟨a, b, -, hspan⟩ := Pattern.exists_of_mem_tags Pattern.anchored_span h
    obtain ⟨braces, inner, -, rfl, -⟩ := Pattern.exists_of_span_eq_some hspan
    exact ⟨_, rfl⟩
  rw [showNumber]
  by_cases hd : depth = 0
  · rw [if_pos hd, resolveFragment, numberFragment]
    by_cases hnum : it.IsNumbered depth ⟨source, []⟩
    · rw [if_pos hnum, if_pos ((index_resolveTag_iff hc hne he).2 hnum.2), List.map_map]
      rfl
    · rw [if_neg hnum, if_neg fun h => hnum ⟨hd, (index_resolveTag_iff hc hne he).1 h⟩]
      simp [copyFragment, hd]
  · rw [if_neg hd, if_neg fun h => hd h.1]
    simp [copyFragment, hd, resolveFragment]

/-- **The parts of the copy of a text** are those of the text, one for one. -/
theorem scan_expandText {t : Text} (h : it.Confines (Pattern.span.scan t))
    (hi : depth = 0 → IndexApart (it.resolveText t)) :
    Pattern.span.scan (it.expandText depth t) =
      ((Pattern.span.scan t).flatMap (it.showNumber depth)).map (it.copyFragment depth) := by
  rw [List.map_flatMap]
  by_cases hd : depth = 0
  · rw [expandText, if_pos hd, scan_numbered (hi hd), scan_resolveText hc hne h, List.flatMap_map]
    refine List.flatMap_congr fun f hf => ?_
    cases f with
    | char c => rfl
    | tag tag =>
      rw [copyFragment_eq hc hne (List.mem_filterMap.2 ⟨_, hf, rfl⟩), if_pos hd]
  · rw [expandText, if_neg hd, scan_resolveText hc hne h, List.map_eq_flatMap]
    refine List.flatMap_congr fun f hf => ?_
    cases f with
    | char c => rfl
    | tag tag =>
      rw [copyFragment_eq hc hne (List.mem_filterMap.2 ⟨_, hf, rfl⟩), if_neg hd]

end Collection

variable (it depth) in
theorem gaps_copyFragment (fs : List Fragment) :
    Pattern.gaps (fs.map (it.copyFragment depth)) = Pattern.gaps fs := by
  induction fs with
  | nil => rfl
  | cons f fs ih =>
    obtain ⟨hfirst, hrest⟩ := List.cons.inj ih
    cases f with
    | char c => exact congrArg₂ List.cons (congrArg (c :: ·) hfirst) hrest
    | tag tag => exact congrArg ([] :: ·) ih

theorem tags_showNumber (fs : List Fragment) :
    (fs.flatMap (it.showNumber depth)).filterMap Fragment.tag? =
      (fs.filterMap Fragment.tag?).filter fun tag => ¬ it.IsNumbered depth tag := by
  induction fs with
  | nil => rfl
  | cons f fs ih =>
    rw [List.flatMap_cons, List.filterMap_append, ih]
    cases f with
    | char c => rfl
    | tag tag =>
      have htag : (Fragment.tag tag :: fs).filterMap Fragment.tag? =
          tag :: fs.filterMap Fragment.tag? := rfl
      rw [showNumber, htag]
      by_cases hnum : it.IsNumbered depth tag
      · rw [if_pos hnum, List.filter_cons_of_neg (by simpa using hnum), filterMap_tag?_chars]
        rfl
      · rw [if_neg hnum, List.filter_cons_of_pos (by simpa using hnum)]
        rfl

theorem length_tags_copyFragment (fs : List Fragment) :
    ((fs.map (it.copyFragment depth)).filterMap Fragment.tag?).length =
      (fs.filterMap Fragment.tag?).length := by
  rw [← Pattern.map_fst_cut, ← Pattern.map_fst_cut, List.length_map, List.length_map]
  simpa [Pattern.gaps] using congrArg List.length (gaps_copyFragment it depth fs)

/-- **What is put into a tag stays in it.** Outside its tags, the copy of a line of the body is the
line with the number in place of its interpolations, and each other tag has become one tag; this is
so for every header that is read, whatever the key and the text of the element are, as long as what
is put in does not close a span. -/
theorem expand_keeps_spans {argument : Text}
    (hh : LoopHeader.ofArgument? argument = some it.header) {before : List Line} {line : Line}
    (after : List Line) (hr : line.rendered = false) (h : it.Confines (Pattern.span.scan line.text))
    (hi : depthAt (before.foldl depthBehind 0) line = 0 → IndexApart (it.resolveText line.text)) :
    let depth := depthAt (before.foldl depthBehind 0) line
    let shown := (Pattern.span.scan line.text).flatMap (it.showNumber depth)
    ∃ line', (it.expand (before ++ line :: after))[before.length]? = some line' ∧
      Pattern.span.scan line'.text = shown.map (it.copyFragment depth) ∧
      Pattern.gaps (Pattern.span.scan line'.text) = Pattern.gaps shown ∧
      (Pattern.span.tags line'.text).length =
        (Pattern.span.tags line.text).countP fun tag => ¬ it.IsNumbered depth tag := by
  intro depth shown
  obtain ⟨hne, hc⟩ := LoopHeader.isPath_iff.1 (LoopHeader.ofArgument?_eq_some_iff.1 hh).2.2
  have hscan := scan_expandText hc hne h hi
  refine ⟨_, getElem?_expandFrom it 0 before line after, ?_⟩
  rw [text_expandLine hr, hscan]
  refine ⟨rfl, gaps_copyFragment it depth _, ?_⟩
  rw [Pattern.tags, hscan, length_tags_copyFragment, tags_showNumber, List.countP_eq_length_filter]
  rfl

/-- The text of an element that closes tags of the other kind, and opens some. -/
theorem expand_keeps_spans_percent :
    let it : Iteration :=
      ⟨⟨"x".toList, "xs".toList⟩, "0".toList, "50%\x7d \"off\" \x7b\x7b".toList, 2⟩
    let line : Line :=
      { text := "<b>\x7b\x7b a.x \x7d\x7d</b> ".toList ++
          "\x7b\x7b index \x7d\x7d: \x7b\x7b x.n \x7d\x7d".toList }
    it.Confines (Pattern.span.scan line.text) ∧ IndexApart (it.resolveText line.text) ∧
      ∃ line', (it.expand [line])[0]? = some line' ∧
        Pattern.gaps (Pattern.span.scan line'.text) =
          ["<b>".toList, "</b> 3: ".toList, "".toList] ∧
        (Pattern.span.tags line'.text).length = 2 := by
  intro it line
  have hconfines : it.Confines (Pattern.span.scan line.text) := by decide +kernel
  have hapart : IndexApart (it.resolveText line.text) := by decide +kernel
  have hheader : LoopHeader.ofArgument? "x in xs".toList = some it.header := by decide +kernel
  obtain ⟨line', hline, -, hgaps, htags⟩ :
      ∃ line', (it.expand ([] ++ line :: []))[0]? = some line' ∧ _ ∧ _ ∧ _ :=
    expand_keeps_spans hheader [] rfl hconfines fun _ => hapart
  refine ⟨hconfines, hapart, line', hline, hgaps.trans ?_, htags.trans ?_⟩ <;> decide +kernel

/-- **What is put in can close a span**: the text of the element or the key of a mapping closes its
own tag, or a tag that a delimiter on the line opens; a line end ends the line that a tag has to
stand on; and a number can make a tag of two. -/
theorem expand_breaks_spans :
    ([(⟨⟨"x".toList, "xs".toList⟩, "0".toList, "\x7d\x7d!\x7b\x7b".toList, 0⟩,
        "\x7b\x7b a.x \x7d\x7d".toList),
      (⟨⟨"x".toList, "xs".toList⟩, "a\x7d\x7db".toList, [], 0⟩, "\x7b\x7b x \x7d\x7d".toList),
      (⟨⟨"x".toList, "xs".toList⟩, "0".toList, "a\nb".toList, 0⟩, "\x7b\x7b a.x \x7d\x7d".toList),
      (⟨⟨"x".toList, "xs".toList⟩, "0".toList, "%\x7d".toList, 0⟩,
        "\x7b% \x7b\x7b a.x \x7d\x7d".toList),
      (⟨⟨"x".toList, "xs".toList⟩, "0".toList, [], 0⟩,
        "\x7b\x7b a \x7b\x7b index \x7d\x7d b \x7d\x7d".toList),
      (⟨⟨"x".toList, "xs".toList⟩, "0".toList, [], 0⟩,
        "\x7b\x7b \x7b\x7b\nindex \x7d\x7d \x7d\x7d".toList)] : List (Iteration × Text)).all
      (fun (it, t) =>
        (it.expand [{ text := t }]).map (fun line => Pattern.gaps (Pattern.span.scan line.text)) ≠
          [Pattern.gaps ((Pattern.span.scan t).flatMap (it.showNumber 0))]) = true := by
  decide +kernel

end Iteration

end Stencil
