import Mathlib.Data.List.Forall2
import Stencil.Proofs.Expansion.Tags

/-!
# The headers of loops inside a loop

The header of a loop is three words of a tag. When an iteration of an outer loop resolves the tag,
each of the words stays or becomes a path into the collection, so that a header that can be read
afterwards could be read before (`exists_header_of_resolveText`). Its variable is the same or holds
a dot, and then no path begins with it.
-/

namespace Stencil

open Tag

/-! ## The words of a tag -/

/-- What ends with a delimiter and holds none before ends with its first delimiter. -/
theorem append_stop_cancel {inner x r : Text} {braces : Bool}
    (hd : ∀ c ∈ inner, isDelimiterPart c = false)
    (h : inner ++ stop braces = x ++ (stop braces ++ r)) : inner = x := by
  obtain ⟨d, hs, -⟩ := stop_eq braces
  rcases List.append_eq_append_iff.1 h with ⟨y, rfl, hy⟩ | ⟨y, rfl, hy⟩
  · have hlen := congrArg List.length hy
    simp only [List.length_append] at hlen
    have hnil : y = [] := List.length_eq_zero_iff.1 (by omega)
    simp [hnil]
  · cases y with
    | nil => simp
    | cons c y =>
      have hc : c ∈ stop braces := by
        rw [hs] at hy ⊢
        obtain ⟨rfl, -⟩ := List.cons.inj hy
        simp
      exact absurd (isDelimiterPart_of_mem_stop hc) (by simp [hd c (by simp)])

/-- **The words of a tag** are its keyword and the words of its argument. -/
theorem words_of_keyword_eq_some {kw inner : Text} {tag : Tag} (hkw : IsKeyword kw)
    (hd : ∀ c ∈ inner, isDelimiterPart c = false)
    (h : Pattern.keyword kw (enclose false inner) = some tag) :
    Text.words inner = kw :: Text.words tag.argument := by
  obtain ⟨b, i, x, r, hs, ht, hb, hne, hi, -, e, he, rfl⟩ :=
    Pattern.exists_of_keyword_eq_some hkw h
  obtain ⟨c, i, rfl⟩ := List.exists_cons_of_ne_nil hne
  obtain ⟨hc, hi⟩ : isBlank c = true ∧ i.all isBlank = true := by simpa using hi
  have hkwb : ∀ c ∈ kw, isBlank c = false := fun c hc => (isLower_separates (hkw.2 c hc)).1
  have hinner : inner = b ++ (kw ++ c :: (i ++ (tag.argument ++ e))) := by
    have hstop : inner ++ stop false =
        b ++ (kw ++ c :: (i ++ (tag.argument ++ e))) ++ (stop false ++ r) := by
      rw [hs] at ht
      simpa [enclose, start, stop] using ht
    exact append_stop_cancel hd hstop
  rw [hinner, Text.words_blanks hb, Text.words_cons hkw.1 hkwb hc, Text.words_blanks hi,
    Text.words_append_blanks he]

theorem exists_enclose_of_keyword {kw t : Text} {tag : Tag} (h : Pattern.keyword kw t = some tag) :
    ∃ inner r, t = enclose false inner ++ r := by
  unfold Pattern.keyword at h
  simp only [Option.bind_eq_bind, Option.bind_eq_some_iff] at h
  obtain ⟨⟨head, rest⟩, hk, hw⟩ := h
  obtain ⟨rfl, b, -, rfl⟩ := keyword?_start hk
  obtain ⟨i, x, r, -, rfl, -⟩ := exists_of_withArgument?_eq_some hw
  exact ⟨b ++ kw ++ i ++ x, r, by simp [enclose, start, stop]⟩

/-- In a text that is one tag, the tag with a keyword is the whole text. -/
theorem keyword_of_find? {kw inner : Text} {tag : Tag}
    (hd : ∀ c ∈ inner, isDelimiterPart c = false)
    (h : (Pattern.keyword kw).find? (enclose false inner) = some tag) :
    Pattern.keyword kw (enclose false inner) = some tag := by
  have hmem : tag ∈ (Pattern.keyword kw).tags (enclose false inner) := by
    rw [Pattern.tags, List.mem_filterMap]
    exact List.exists_of_findSome?_eq_some h
  obtain ⟨a, y, ht, hy⟩ := Pattern.exists_of_mem_tags (Pattern.anchored_keyword kw) hmem
  obtain ⟨inner', r, hr⟩ := exists_enclose_of_keyword hy
  have hne : tag.source ++ y ≠ [] := by
    rw [hr]
    simp [enclose, start, opening]
  have hover : enclose false inner' ++ r = tag.source ++ y ++ [] := by simpa using hr.symm
  obtain rfl := Text.eq_nil_of_overlap hd hne ht hover
  rw [ht]
  exact hy

/-! ## The words of a resolved tag -/

namespace Renames

variable {Q : Text → Text → Prop} {joined : Bool} {t t' : Text}

/-- How a word of the second text comes from a word of the first. -/
def Turns (Q : Text → Text → Prop) (w w' : Text) : Prop := w = w' ∨ Q w w' ∧ IsWord w

/-- A character of a word, or a blank. -/
def IsWordOrBlank (c : Char) : Prop := isBlank c = true ∨ isPathPart c = true

theorem words_word_append {w s : Text} (hw : IsWord w) (hs : ∀ c ∈ s.head?, isBlank c = true) :
    Text.words (w ++ s) = w :: Text.words s := by
  have hblank : ∀ c ∈ w, isBlank c = false := by
    intro c hc
    cases hb : isBlank c with
    | false => rfl
    | true => exact absurd (hw.isPathPart c hc) (by simp [(blank_separates hb).1])
  cases s with
  | nil => simpa [Text.words, Text.words.go] using Text.words_single hw.ne_nil hblank
  | cons c s =>
    have hc : isBlank c = true := hs c (by simp)
    have hskip : Text.words (c :: s) = Text.words s :=
      Text.words_blanks (b := [c]) (by simpa using hc) s
    rw [Text.words_cons hw.ne_nil hblank hc, hskip]

theorem words_go (h : Renames Q joined t t') {e : Char} (he : ¬ IsWordOrBlank e) {s s' r r' : Text}
    (ht : t = s ++ e :: r) (ht' : t' = s' ++ e :: r') (hs : ∀ c ∈ s, IsWordOrBlank c)
    (hs' : ∀ c ∈ s', IsWordOrBlank c) {word : Text} (hword : joined = false → word = []) :
    List.Forall₂ (Turns Q) (Text.words.go word s) (Text.words.go word s') := by
  induction h generalizing s s' word with
  | nil => simp at ht
  | @char joined c u u' _ ih =>
    cases s with
    | nil =>
      cases s' with
      | nil => exact List.forall₂_same.2 fun _ _ => .inl rfl
      | cons b s' =>
        obtain ⟨rfl, -⟩ := List.cons.inj ht
        obtain ⟨rfl, -⟩ := List.cons.inj ht'
        exact absurd (hs' _ (by simp)) he
    | cons b s =>
      obtain ⟨rfl, hu⟩ := List.cons.inj ht
      cases s' with
      | nil =>
        obtain ⟨rfl, -⟩ := List.cons.inj ht'
        exact absurd (hs _ (by simp)) he
      | cons b' s' =>
        obtain ⟨rfl, hu'⟩ := List.cons.inj ht'
        have hwb := hs c (by simp)
        have hs := fun x hx => hs x (List.mem_cons_of_mem _ hx)
        have hs' := fun x hx => hs' x (List.mem_cons_of_mem _ hx)
        cases hb : isBlank c with
        | true =>
          rw [Text.words_go_blank word hb, Text.words_go_blank word hb]
          have hrest := ih hu hu' hs hs' fun _ => rfl
          by_cases hw : word = []
          · simpa [hw] using hrest
          · simpa [hw] using List.Forall₂.cons (.inl rfl) hrest
        | false =>
          rw [Text.words_go_part word hb, Text.words_go_part word hb]
          refine ih hu hu' hs hs' fun hc => ?_
          rcases hwb with hwb | hwb
          · exact absurd hwb (by simp [hb])
          · exact absurd hwb (by simp [hc])
  | @word w w' c u u' hq hw hw' hc _ ih =>
    obtain rfl := hword rfl
    have hpart : isPathPart e = false := by
      cases hp : isPathPart e with
      | false => rfl
      | true => exact absurd (.inr hp) he
    obtain ⟨v, rfl, hv⟩ := exists_run_append ht.symm hw.isPathPart hpart
    obtain ⟨v', rfl, hv'⟩ := exists_run_append ht'.symm hw'.isPathPart hpart
    have hs := fun x hx => hs x (List.mem_append_right _ hx)
    have hs' := fun x hx => hs' x (List.mem_append_right _ hx)
    -- a blank follows on the word, since `c` is no part of one
    have hhead : ∀ {v r u : Text}, v ++ e :: r = c :: u → (∀ x ∈ v, IsWordOrBlank x) →
        ∀ x ∈ v.head?, isBlank x = true := by
      intro v r u hv hall x hx
      cases v with
      | nil => cases hx
      | cons y v =>
        obtain ⟨rfl, -⟩ := List.cons.inj hv
        obtain rfl : y = x := by simpa using hx
        exact (hall y (by simp)).resolve_right (by simp [hc])
    show List.Forall₂ _ (Text.words (w ++ v)) (Text.words (w' ++ v'))
    rw [words_word_append hw (hhead hv hs), words_word_append hw' (hhead hv' hs')]
    exact .cons (.inr ⟨hq, hw⟩) (ih hv.symm hv'.symm hs hs' fun _ => rfl)

end Renames

/-! ## Headers -/

/-- The header of the loop that a text opens, if it can be read. -/
def LoopHeader.ofText? (t : Text) : Option LoopHeader :=
  (Directive.loop.find? t).bind fun tag => ofArgument? tag.argument

theorem LoopHeader.ofArgument?_eq_some_iff {argument : Text} {header : LoopHeader} :
    ofArgument? argument = some header ↔
      Text.words argument = [header.variableName, "in".toList, header.collection] ∧
        isPath header.variableName = true ∧ isPath header.collection = true := by
  obtain ⟨v, c⟩ := header
  unfold ofArgument?
  constructor
  · intro h
    split at h
    · next x y z hw =>
      split at h
      · next hc =>
        obtain ⟨rfl, rfl⟩ : x = v ∧ z = c := by simpa using h
        simp only [Bool.and_eq_true, decide_eq_true_eq] at hc
        obtain ⟨⟨rfl, hv⟩, hz⟩ := hc
        exact ⟨hw, hv, hz⟩
      · cases h
    · cases h
  · rintro ⟨hw, hv, hc⟩
    simp only at hw hv hc
    rw [hw]
    simp [hv, hc]

/-- **The words of a tag that opens a loop.** -/
theorem LoopHeader.words_of_ofText?_eq_some {inner : Text}
    (hd : ∀ c ∈ inner, isDelimiterPart c = false) {header : LoopHeader}
    (h : ofText? (enclose false inner) = some header) :
    Text.words inner = ["for".toList, header.variableName, "in".toList, header.collection] ∧
      isPath header.variableName = true ∧ isPath header.collection = true := by
  obtain ⟨tag, htag, harg⟩ := Option.bind_eq_some_iff.1 h
  obtain ⟨hwords, hpaths⟩ := ofArgument?_eq_some_iff.1 harg
  have hfor : IsKeyword "for".toList := by decide
  have hw := words_of_keyword_eq_some hfor hd (keyword_of_find? hd htag)
  rw [hwords] at hw
  exact ⟨hw, hpaths⟩

/-- A tag with the keyword of a loop opens one if its words are those of a header. -/
theorem LoopHeader.ofText?_of_words {inner : Text} (hd : ∀ c ∈ inner, isDelimiterPart c = false)
    {header : LoopHeader} (hocc : Directive.loop.occursIn (enclose false inner) = true)
    (hw : Text.words inner =
      ["for".toList, header.variableName, "in".toList, header.collection])
    (hv : isPath header.variableName = true) (hc : isPath header.collection = true) :
    ofText? (enclose false inner) = some header := by
  have hsome : (Directive.loop.find? (enclose false inner)).isSome := by
    rw [Directive.find?, Pattern.isSome_find?]
    exact hocc
  obtain ⟨tag, htag⟩ := Option.isSome_iff_exists.1 hsome
  have hfor : IsKeyword "for".toList := by decide
  have hw' := words_of_keyword_eq_some hfor hd (keyword_of_find? hd htag)
  rw [hw] at hw'
  exact Option.bind_eq_some_iff.2
    ⟨tag, htag, ofArgument?_eq_some_iff.2 ⟨(List.cons.inj hw').2.symm, hv, hc⟩⟩

/-- A text holds nothing but blanks and the characters of its words. -/
theorem Renames.isWordOrBlank_of_words {t : Text}
    (h : ∀ w ∈ Text.words t, LoopHeader.isPath w = true) : ∀ c ∈ t, IsWordOrBlank c := by
  intro c hc
  cases hb : isBlank c with
  | true => exact .inl hb
  | false =>
    obtain ⟨w, hw, hcw⟩ := Text.exists_mem_words hc hb
    exact .inr ((LoopHeader.isPath_iff.1 (h w hw)).2 c hcw)

/-- Conversely, the words of such a text are paths. -/
theorem Renames.isPath_of_isWordOrBlank {t : Text} (h : ∀ c ∈ t, IsWordOrBlank c) :
    ∀ w ∈ Text.words t, LoopHeader.isPath w = true := by
  intro w hw
  obtain ⟨hne, hchars⟩ := Text.mem_words hw
  refine LoopHeader.isPath_iff.2 ⟨hne, fun c hc => ?_⟩
  exact (h c (hchars c hc).1).resolve_left (by simp [(hchars c hc).2])

namespace Iteration

variable {it : Iteration} (hit : it.IsProper)
include hit

/-- **A header that can be read in an iteration** could be read before. Its variable is the same or
holds a dot, and its collection is the same or was resolved. -/
theorem exists_header_of_resolveText {inner : Text} (hd : ∀ c ∈ inner, isDelimiterPart c = false)
    (hn : '\n' ∉ inner) (h : it.Spares (enclose false inner)) {header' : LoopHeader}
    (hh : LoopHeader.ofText? (it.resolveText (enclose false inner)) = some header') :
    ∃ header, LoopHeader.ofText? (enclose false inner) = some header ∧
      (header'.variableName = header.variableName ∨ '.' ∈ header'.variableName) ∧
      (header'.collection = header.collection ∨
        header'.collection = it.resolved header.collection ∧
          (Text.splitOn '.' header.collection).head? = some it.header.variableName) := by
  have hnt : '\n' ∉ enclose false inner := by simp [enclose, start, stop, opening, closing, hn]
  have htidy : Text.isTidy (enclose false inner) = true := by
    have h : Text.isTidy (enclose false inner ++ []) = Text.isTidy [] :=
      Text.isTidy_enclose_append hd hn []
    rw [List.append_nil] at h
    rw [h]
    rfl
  have hren := (resolveText_spec hit hnt htidy h).1 false
  have hocc : Directive.loop.occursIn (enclose false inner) = true := by
    have hfor : "for".toList ∈ tagKeywords := by decide
    have hocc' : Directive.loop.occursIn _ = Directive.loop.occursIn _ :=
      hren.occursIn_keyword hfor
    obtain ⟨tag', htag', -⟩ := Option.bind_eq_some_iff.1 hh
    rw [← hocc', Directive.occursIn, ← Pattern.isSome_find?]
    exact Option.isSome_iff_exists.2 ⟨tag', htag'⟩
  obtain ⟨inner', heq, hd', hinner⟩ := hren.enclose hd
  rw [heq] at hh
  obtain ⟨hw', hv', hc'⟩ := LoopHeader.words_of_ofText?_eq_some hd' hh
  -- no word is quoted, so that each stays or is resolved
  have hall' : ∀ c ∈ inner', Renames.IsWordOrBlank c := by
    refine Renames.isWordOrBlank_of_words ?_
    simp only [hw', List.forall_mem_cons, hv', hc']
    decide
  have hall : ∀ c ∈ inner, Renames.IsWordOrBlank c := by
    intro c hc
    rcases hinner.symm.mem_of_mem (x := c) (by simp [hc]) with hm | hm
    · rcases List.mem_append.1 hm with hm | hm
      · exact hall' c hm
      · exact absurd (isDelimiterPart_of_mem_stop hm) (by simp [hd c hc])
    · exact .inr hm
  have hpercent : ¬ Renames.IsWordOrBlank '%' := by
    unfold Renames.IsWordOrBlank
    decide
  have hstop : ∀ x : Text, x ++ stop false = x ++ '%' :: ['}'] := fun _ => rfl
  have hturns : List.Forall₂ (Renames.Turns it.Resolves) (Text.words inner) (Text.words inner') :=
    hinner.words_go hpercent (hstop inner) (hstop inner') hall hall' fun _ => rfl
  have hpath := Renames.isPath_of_isWordOrBlank hall
  rw [hw'] at hturns
  generalize hargs : Text.words inner = args at hturns hpath
  cases hturns with | @cons f _ _ _ hturnf hturns =>
  cases hturns with | @cons v _ _ _ hturnv hturns =>
  cases hturns with | @cons i _ _ _ hturni hturns =>
  cases hturns with | @cons c _ _ _ hturnc hturns =>
  cases hturns
  -- a word without a dot was not resolved
  have hstays : ∀ {w w' : Text}, Renames.Turns it.Resolves w w' → '.' ∉ w' → w = w' :=
    fun hturn hdot => hturn.resolve_right fun hres => hdot hres.1.2.1
  have hfor := hstays hturnf (by decide)
  have hin := hstays hturni (by decide)
  refine ⟨⟨v, c⟩, LoopHeader.ofText?_of_words hd hocc ?_ (hpath v (by simp)) (hpath c (by simp)),
    ?_, ?_⟩
  · rw [hargs, hfor, hin]
  · rcases hturnv with rfl | ⟨⟨-, hdot, -⟩, -⟩
    · exact .inl rfl
    · exact .inr hdot
  · rcases hturnc with rfl | ⟨⟨hres, -, hhead⟩, -⟩
    · exact .inl rfl
    · exact .inr ⟨hres, hhead⟩

end Iteration

end Stencil
