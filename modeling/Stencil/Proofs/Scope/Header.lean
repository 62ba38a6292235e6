import Stencil.Proofs.Scope.Numbering

/-!
# The tags of an inner loop

An iteration reads the tag that opens an inner loop word by word. If its variable is none of the
first three words, it leaves them and resolves the collection (`header?_expandLine`); the tag that
closes the inner loop stays as it is (`expandLine_of_closesLoop`).
-/

namespace Stencil

open Tag

/-! ## Reading a text word by word -/

namespace Text

theorem isBlank_of_mem_head? {t : Text} (hb : t.all Stencil.isBlank = true) :
    ∀ c ∈ t.head?, Stencil.isBlank c = true := fun c hc =>
  List.all_eq_true.1 hb c (List.mem_of_mem_head? hc)

/-- A text is blank, or it is blanks, a word and a text that does not go on with the word. -/
theorem words_induction {motive : Text → Prop}
    (blanks : ∀ b, b.all Stencil.isBlank = true → motive b)
    (word : ∀ b w r, b.all Stencil.isBlank = true → w ≠ [] →
      (∀ c ∈ w, Stencil.isBlank c = false) → (∀ c ∈ r.head?, Stencil.isBlank c = true) →
      motive r → motive (b ++ (w ++ r))) (t : Text) : motive t := by
  induction hn : t.length using Nat.strongRecOn generalizing t with
  | _ n ih =>
    subst hn
    have hsplit := indent_append_trimStart t
    cases hs : trimStart t with
    | nil =>
      rw [hs, List.append_nil] at hsplit
      exact blanks t (hsplit ▸ all_indent t)
    | cons c cs =>
      have hword := List.takeWhile_append_dropWhile (p := fun c => !Stencil.isBlank c) (l := c :: cs)
      have hc : Stencil.isBlank c = false := head_trimStart t c (by rw [hs]; rfl)
      have hne : (c :: cs).takeWhile (fun c => !Stencil.isBlank c) ≠ [] := by simp [hc]
      have hlength : ((c :: cs).dropWhile fun c => !Stencil.isBlank c).length < t.length := by
        have h := congrArg List.length hword
        have ht := congrArg List.length hsplit
        have hpos := List.length_pos_iff.2 hne
        rw [List.length_append] at h ht
        rw [hs] at ht
        omega
      rw [← hsplit, hs, ← hword]
      refine word _ _ _ (all_indent t) hne (fun d hd => ?_) (fun d hd => ?_) (ih _ hlength _ rfl)
      · simpa using List.all_eq_true.1 List.all_takeWhile d hd
      · have h := List.head?_dropWhile_not (fun c => !Stencil.isBlank c) (c :: cs)
        rw [Option.mem_def.1 hd] at h
        simpa using h

theorem words_eq_nil {b : Text} (hb : b.all Stencil.isBlank = true) : words b = [] := by
  simpa [words, words.go] using words_blanks hb []

theorem words_word {b w r : Text} (hb : b.all Stencil.isBlank = true) (hne : w ≠ [])
    (hw : ∀ c ∈ w, Stencil.isBlank c = false) (hr : ∀ c ∈ r.head?, Stencil.isBlank c = true) :
    words (b ++ (w ++ r)) = w :: words r := by
  rw [words_blanks hb]
  cases r with
  | nil => rw [List.append_nil, words_single hne hw]; rfl
  | cons c r =>
    have hc := hr c rfl
    rw [words_cons hne hw hc]
    exact congrArg (w :: ·) (words_blanks (b := [c]) (by simpa using hc) r).symm

end Text

/-! ## Resolving the words of a tag -/

/-- No path goes on behind a word that blanks or separators follow on. -/
theorem exists_separator {r s : Text} (hr : ∀ c ∈ r.head?, isBlank c = true)
    (hs : ∀ c ∈ s, Iteration.Separates c) (hne : s ≠ []) :
    ∃ c cs, r ++ s = c :: cs ∧ isPathPart c = false := by
  cases r with
  | nil =>
    obtain ⟨c, cs, rfl⟩ := List.exists_cons_of_ne_nil hne
    exact ⟨c, cs, rfl, (hs c (by simp)).1⟩
  | cons c r => exact ⟨c, r ++ s, rfl, (blank_separates (hr c rfl)).1⟩

namespace Tag

variable {s t : Text}

/-- The paths of a tag whose words can be paths are words. -/
theorem mem_words_of_mem_pathsFrom (hs : ∀ c ∈ s, Iteration.Separates c) (hne : s ≠ [])
    (ht : ∀ w ∈ Text.words t, LoopHeader.isPath w = true) {p : Text}
    (hp : p ∈ pathsFrom (.plain false) (t ++ s)) : p ∈ Text.words t := by
  have hend : pathsFrom (.plain false) s = [] := by
    have h := Iteration.pathsFrom_separators hs []
    rwa [List.append_nil] at h
  induction t using Text.words_induction with
  | blanks b hb =>
    rw [Iteration.pathsFrom_separators (Iteration.separates_of_isBlank hb), hend] at hp
    cases hp
  | word b w r hb hw hblank hr ih =>
    rw [Text.words_word hb hw hblank hr] at ht ⊢
    obtain ⟨c, cs, hcs, hc⟩ := exists_separator hr hs hne
    rw [List.append_assoc, List.append_assoc,
      Iteration.pathsFrom_separators (Iteration.separates_of_isBlank hb), hcs] at hp
    rcases Iteration.mem_pathsFrom_word (LoopHeader.isPath_iff.1 (ht w (by simp))).2 hc hp with
      rfl | hp
    · exact List.mem_cons_self
    · exact List.mem_cons_of_mem w
        (ih (fun x hx => ht x (List.mem_cons_of_mem w hx)) (hcs ▸ hp))

theorem mem_words_of_mem_paths {inner : Text} (hd : ∀ c ∈ inner, isDelimiterPart c = false)
    (hn : '\n' ∉ inner) (ht : ∀ w ∈ Text.words inner, LoopHeader.isPath w = true) {tag : Tag}
    (htag : tag ∈ Pattern.span.tags (enclose false inner)) {p : Text} (hp : p ∈ tag.paths) :
    p ∈ Text.words inner := by
  have htags : Pattern.span.tags (enclose false inner ++ []) = _ := Text.tags_enclose hd hn []
  rw [List.append_nil] at htags
  rw [htags] at htag
  obtain rfl := List.mem_singleton.1 htag
  refine mem_words_of_mem_pathsFrom (Iteration.separates_stop false) (stop_ne_nil false) ht ?_
  rw [← Iteration.pathsFrom_separators (Iteration.separates_start false), ← List.append_assoc]
  exact hp

end Tag

namespace Iteration

variable {it : Iteration}

/-- **The words of a tag are resolved** one by one. -/
theorem exists_resolveFrom_words (hv : it.header.variableName.IsIdentifier) {s t : Text}
    (hs : ∀ c ∈ s, Separates c) (hne : s ≠ [])
    (ht : ∀ w ∈ Text.words t, LoopHeader.isPath w = true ∧ LoopHeader.isPath (it.resolved w) = true ∧
      it.header.variableName ∉ Context.laterSegments w) :
    ∃ t', it.resolveFrom (.plain false) (t ++ s) = t' ++ s ∧
      Text.words t' = (Text.words t).map it.resolved ∧
      ((∀ c ∈ t.head?, isBlank c = true) → ∀ c ∈ t'.head?, isBlank c = true) := by
  induction t using Text.words_induction with
  | blanks b hb =>
    have hstay : it.resolveFrom (.plain false) (b ++ s) = b ++ s := by
      have h : it.resolveFrom (.plain false) (b ++ s ++ []) = _ :=
        resolveFrom_separators (separates_append (separates_of_isBlank hb) hs) []
      rwa [List.append_nil, resolveFrom, List.append_nil] at h
    exact ⟨b, hstay, by rw [Text.words_eq_nil hb]; rfl, id⟩
  | word b w r hb hw hblank hr ih =>
    rw [Text.words_word hb hw hblank hr] at ht ⊢
    obtain ⟨hpath, hpath', hlater⟩ := ht w (by simp)
    obtain ⟨r', hres, hwords, hhead⟩ := ih fun x hx => ht x (List.mem_cons_of_mem w hx)
    obtain ⟨c, cs, hcs, hc⟩ := exists_separator hr hs hne
    obtain ⟨hne', hpart'⟩ := LoopHeader.isPath_iff.1 hpath'
    refine ⟨b ++ (it.resolved w ++ r'), ?_, ?_, fun hhead' => ?_⟩
    · rw [List.append_assoc, List.append_assoc, resolveFrom_separators (separates_of_isBlank hb), hcs,
        resolveFrom_word hv hpath hlater hc, ← hcs, hres]
      simp
    · rw [Text.words_word hb hne' (fun c hc => isBlank_eq_false_of_isPathPart (hpart' c hc))
        (hhead hr), hwords]
      rfl
    · cases b with
      | nil =>
        obtain ⟨d, ds, rfl⟩ := List.exists_cons_of_ne_nil hw
        have hd := hblank d (by simp)
        rw [hhead' d (by simp)] at hd
        cases hd
      | cons d b => simpa using hhead'

theorem exists_resolveText_words (hv : it.header.variableName.IsIdentifier) {inner : Text}
    (hd : ∀ c ∈ inner, isDelimiterPart c = false) (hn : '\n' ∉ inner)
    (ht : ∀ w ∈ Text.words inner, LoopHeader.isPath w = true ∧
      LoopHeader.isPath (it.resolved w) = true ∧
      it.header.variableName ∉ Context.laterSegments w) :
    ∃ inner', it.resolveText (enclose false inner) = enclose false inner' ∧
      Text.words inner' = (Text.words inner).map it.resolved := by
  obtain ⟨inner', hres, hwords, -⟩ :=
    exists_resolveFrom_words hv (separates_stop false) (stop_ne_nil false) ht
  refine ⟨inner', ?_, hwords⟩
  have htag : it.resolveText (enclose false inner ++ []) = _ := resolveText_enclose hd hn []
  have hnil : it.resolveText [] = [] := rfl
  rw [List.append_nil, hnil, List.append_nil, resolveTag] at htag
  rw [htag, enclose, List.append_assoc, resolveFrom_separators (separates_start false), hres,
    ← List.append_assoc]
  rfl

end Iteration

/-! ## Tags that open and close a loop -/

/-- The line is a tag that opens a loop with a header that can be read. -/
structure Line.OpensLoop (line : Line) : Prop where
  opens : line.Opens .loop
  no_newline : '\n' ∉ line.text
  tidy : Text.isTidy line.text = true
  header : line.header?.isSome

/-- The line is a tag that closes a loop. -/
structure Line.ClosesLoop (line : Line) : Prop where
  closes : line.Closes .loop
  no_newline : '\n' ∉ line.text
  tidy : Text.isTidy line.text = true

instance (line : Line) : Decidable line.OpensLoop :=
  decidable_of_iff (_ ∧ _ ∧ _ ∧ _) ⟨fun ⟨a, b, c, d⟩ => ⟨a, b, c, d⟩, fun ⟨a, b, c, d⟩ => ⟨a, b, c, d⟩⟩

instance (line : Line) : Decidable line.ClosesLoop :=
  decidable_of_iff (_ ∧ _ ∧ _) ⟨fun ⟨a, b, c⟩ => ⟨a, b, c⟩, fun ⟨a, b, c⟩ => ⟨a, b, c⟩⟩

namespace Line

variable {line : Line}

/-- The words of the tag that opens a loop. -/
def headerWords (header : LoopHeader) : List Text :=
  ["for".toList, header.variableName, "in".toList, header.collection]

theorem OpensLoop.exists_words (h : line.OpensLoop) {header : LoopHeader}
    (hheader : line.header? = some header) :
    ∃ inner, line.text = enclose false inner ∧ (∀ c ∈ inner, isDelimiterPart c = false) ∧
      '\n' ∉ inner ∧ Text.words inner = headerWords header ∧
      LoopHeader.isPath header.variableName = true ∧
      LoopHeader.isPath header.collection = true := by
  obtain ⟨inner, he, hd, hn⟩ := exists_enclose_of_opening h.tidy h.no_newline h.opens.isTag
    (opening_infix_of_opened (d := .loop) (by simp [h.opens.opened]))
  rw [header?, he] at hheader
  exact ⟨inner, he, hd, hn, LoopHeader.words_of_ofText?_eq_some hd hheader⟩

/-- The header is read off the words of the tag. -/
theorem header?_of_words (h : line.Opens .loop) {inner : Text}
    (he : line.text = enclose false inner) (hd : ∀ c ∈ inner, isDelimiterPart c = false)
    {header : LoopHeader} (hwords : Text.words inner = headerWords header)
    (hv : LoopHeader.isPath header.variableName = true)
    (hc : LoopHeader.isPath header.collection = true) : line.header? = some header := by
  have hocc : Directive.loop.occursIn line.text = true := by
    have hm : Directive.loop ∈ opened line.text := by simp [h.opened]
    exact (List.mem_filter.1 hm).2
  rw [he] at hocc
  rw [header?, he]
  exact LoopHeader.ofText?_of_words hd hocc hwords hv hc

/-- The tag that closes a loop holds no other word. -/
theorem ClosesLoop.exists_words (h : line.ClosesLoop) :
    ∃ inner, line.text = enclose false inner ∧ (∀ c ∈ inner, isDelimiterPart c = false) ∧
      '\n' ∉ inner ∧ Text.words inner = ["endfor".toList] := by
  obtain ⟨inner, he, hd, hn⟩ := exists_enclose_of_opening h.tidy h.no_newline h.closes.isTag
    (opening_infix_of_closed (d := .loop) (by simp [h.closes.closed]))
  have hocc : (Pattern.bare "endfor".toList).occursIn line.text = true := by
    have hm : Directive.loop ∈ closed line.text := by simp [h.closes.closed]
    exact (List.mem_filter.1 hm).2
  obtain ⟨a, y, hay, hsome⟩ := (Pattern.occursIn_iff (Pattern.anchored_bare _)).1 hocc
  obtain ⟨b, e, r, rfl, hb, he'⟩ := (Pattern.isSome_bare_iff (by decide)).1 hsome
  rw [he] at hay
  obtain rfl : a = [] := by
    have hover : enclose false (b ++ "endfor".toList ++ e) ++ r =
        opening ++ b ++ "endfor".toList ++ (e ++ closing ++ r) ++ [] := by
      simp [enclose, start, stop]
    exact Text.eq_nil_of_overlap hd (by simp [opening]) hay hover
  have hinner : inner = b ++ ("endfor".toList ++ e) := by
    have hstop : inner ++ stop false = b ++ ("endfor".toList ++ e) ++ (stop false ++ r) := by
      simpa [enclose, start, stop] using hay
    exact append_stop_cancel hd hstop
  refine ⟨inner, he, hd, hn, ?_⟩
  rw [hinner, Text.words_word hb (by decide) (by decide) (Text.isBlank_of_mem_head? he'),
    Text.words_eq_nil he']

end Line

/-! ## The tags of a loop in an iteration -/

namespace Iteration

variable {it : Iteration} {p w : Text}

/-- The iteration is one over a list, and its variable is no keyword of a directive. -/
structure IsIndexed (it : Iteration) : Prop where
  identifier : it.header.variableName.IsIdentifier
  not_keyword : it.header.variableName ∉ tagKeywords
  collection : LoopHeader.isPath it.header.collection = true
  key : ∃ i, it.key = Text.ofNat i

theorem laterSegments_of_dotless (h : '.' ∉ w) : Context.laterSegments w = [] := by
  rw [Context.laterSegments, Context.segments, Text.splitOn_of_not_mem h]
  rfl

theorem resolved_of_dotless (hd : '.' ∉ w) (hne : it.header.variableName ≠ w) :
    it.resolved w = w := by
  refine resolved_eq_self fun hm => hne ?_
  rw [Context.segments, Text.splitOn_of_not_mem hd] at hm
  exact List.mem_singleton.1 hm

namespace IsIndexed

variable (hit : it.IsIndexed)
include hit

theorem isProper : it.IsProper := by
  obtain ⟨i, hi⟩ := hit.key
  refine ⟨hit.not_keyword, (LoopHeader.isPath_iff.1 hit.collection).2, fun c hc => ?_, fun hdot => ?_⟩
  · rw [hi] at hc
    exact isPathPart_of_isDigit (Text.isDigit_of_mem_ofNat hc)
  · rw [hi] at hdot
    exact absurd (Text.isDigit_of_mem_ofNat hdot) (by decide)

/-- A key is no name. -/
theorem key_ne (hw : w.IsIdentifier) : w ≠ it.key := by
  obtain ⟨i, hi⟩ := hit.key
  rw [hi]
  rintro rfl
  obtain ⟨c, cs, hcs⟩ := List.exists_cons_of_ne_nil (Text.ofNat_ne_nil i)
  have hdigit : c.isDigit = true := Text.isDigit_of_mem_ofNat (n := i) (by rw [hcs]; simp)
  have hstart := hw.start c (by rw [hcs]; rfl)
  rw [isPathStart_eq_false_of_isDigit hdigit] at hstart
  cases hstart

theorem isPath_resolved (hp : LoopHeader.isPath p = true)
    (hl : it.header.variableName ∉ Context.laterSegments p) :
    LoopHeader.isPath (it.resolved p) = true := by
  obtain ⟨hne, hall⟩ := LoopHeader.isPath_iff.1 hp
  refine LoopHeader.isPath_iff.2 ⟨?_, resolved_isPathPart hit.isProper hne hall hl⟩
  rcases resolved_cases hl with heq | ⟨rest, -, heq | ⟨heq, -⟩⟩ <;> rw [heq]
  · exact hne
  · exact List.ne_nil_of_mem dot_mem_element
  · exact List.ne_nil_of_mem (List.mem_append_left _ dot_mem_element)

section Opening

variable {line : Line} (h : line.OpensLoop) {header : LoopHeader}
  (hheader : line.header? = some header) (hv : header.variableName.IsIdentifier)
  (hl : Context.OnlyLeads it.header.variableName header.collection)
include h hheader hv hl

omit hit in
/-- The words of the tag that opens an inner loop are paths that the variable leads at most. -/
theorem forall_mem_headerWords : ∀ w ∈ Line.headerWords header, LoopHeader.isPath w = true ∧
    it.header.variableName ∉ Context.laterSegments w := by
  obtain ⟨-, -, -, -, -, -, hc⟩ := h.exists_words hheader
  have hdotless : ∀ {w : Text}, '.' ∉ w → it.header.variableName ∉ Context.laterSegments w :=
    fun hw => by rw [laterSegments_of_dotless hw]; exact List.not_mem_nil
  intro w hw
  simp only [Line.headerWords, List.mem_cons, List.not_mem_nil, or_false] at hw
  rcases hw with rfl | rfl | rfl | rfl
  · exact ⟨by decide, hdotless (by decide)⟩
  · exact ⟨hv.isPath, hdotless hv.dotless⟩
  · exact ⟨by decide, hdotless (by decide)⟩
  · exact ⟨hc, hl.not_later⟩

/-- The tag that opens an inner loop changes in words only. -/
theorem fits_opensLoop : it.Fits line.text := by
  have hall := forall_mem_headerWords h hheader hv hl
  obtain ⟨inner, he, hd, hn, hwords, -, -⟩ := h.exists_words hheader
  refine ⟨hit.isProper, h.no_newline, h.tidy, fun tag htag p hp => ?_⟩
  rw [he] at htag
  have hp := mem_words_of_mem_paths hd hn (fun w hw => (hall w (hwords ▸ hw)).1) htag hp
  exact (hall p (hwords ▸ hp)).2

/-- **The header of an inner loop** in an iteration: its variable stays, and its collection is
resolved. -/
theorem header?_expandLine (hne : it.header.variableName ≠ header.variableName)
    (hin : it.header.variableName ≠ "in".toList) (depth : Nat) :
    (it.expandLine depth line).OpensLoop ∧ (it.expandLine depth line).header? =
      some ⟨header.variableName, it.resolved header.collection⟩ := by
  have hall := forall_mem_headerWords h hheader hv hl
  have hfits := hit.fits_opensLoop h hheader hv hl
  have hopens := opens_expandLine hfits h.opens depth
  obtain ⟨inner, he, hd, hn, hwords, -, hc⟩ := h.exists_words hheader
  obtain ⟨-, inner', -, -, -, he', hn', hd', htext⟩ := exists_expandText_of_opens hfits h.opens depth
  have htext := (text_expandLine h.opens.not_rendered).trans htext
  obtain ⟨t, ht, hwords'⟩ := exists_resolveText_words hit.identifier hd hn fun w hw => by
    obtain ⟨hpath, hlater⟩ := hall w (hwords ▸ hw)
    exact ⟨hpath, hit.isPath_resolved hpath hlater, hlater⟩
  obtain rfl : inner' = t := by
    rw [← he, he'] at ht
    exact List.append_cancel_left (List.append_cancel_right ht)
  have hstay : (Line.headerWords header).map it.resolved =
      Line.headerWords ⟨header.variableName, it.resolved header.collection⟩ := by
    have hfor : it.header.variableName ≠ "for".toList := fun e =>
      hit.not_keyword (e ▸ by decide)
    simp only [Line.headerWords, List.map_cons, List.map_nil]
    rw [resolved_of_dotless (by decide) hfor, resolved_of_dotless hv.dotless hne,
      resolved_of_dotless (by decide) hin]
  have hheader' : (it.expandLine depth line).header? =
      some ⟨header.variableName, it.resolved header.collection⟩ := by
    refine Line.header?_of_words hopens (htext.trans he') hd' ?_ hv.isPath
      (hit.isPath_resolved hc hl.not_later)
    rw [hwords', hwords, hstay]
  refine ⟨⟨hopens, ?_, ?_, by rw [hheader']; rfl⟩, hheader'⟩ <;> rw [htext]
  · exact hfits.newline_not_mem
  · exact hfits.tidy_resolveText

end Opening

/-- **The tag that closes an inner loop** stays as it is. -/
theorem expandLine_of_closesLoop {line : Line} (h : line.ClosesLoop) (depth : Nat) :
    it.expandLine depth line = line := by
  obtain ⟨inner, he, hd, hn, hwords⟩ := h.exists_words
  have hself : it.resolveText line.text = line.text := by
    refine resolveText_eq_self fun tag htag p hp => ?_
    rw [he] at htag
    have hp := mem_words_of_mem_paths hd hn (by rw [hwords]; decide) htag hp
    rw [hwords] at hp
    obtain rfl := List.mem_singleton.1 hp
    rw [Context.segments, Text.splitOn_of_not_mem (by decide)]
    exact fun hm => hit.not_keyword (List.mem_singleton.1 hm ▸ by decide)
  refine expandLine_of_text_eq ?_
  rcases expandText_cases it depth line.text with heq | heq <;> rw [heq, hself]
  rw [he, numbered_enclose_keyword hd hn]

end IsIndexed

end Iteration

end Stencil
