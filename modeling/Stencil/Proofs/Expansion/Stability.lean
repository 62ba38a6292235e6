import Stencil.Proofs.Expansion.Splicing
import Stencil.Proofs.Nesting.Hygiene

/-!
# What a tag is, before and after expansion

Expanding a body for an iteration leaves the tags of a line what they are: each directive but
interpolation, and each tag that closes a body, occurs in the expanded line exactly when it occurs
in the line (`expand_keeps_tags`). Both steps of an expansion are rephrasings, so that all depends
on stretches that begin in a keyword or a label. `Iteration.KeepsTags` says when none does: the
variable is neither a keyword of the tags of the line nor a part of their labels, and the number of
the iteration does not come to stand for a label.
-/

namespace Stencil

open Tag

/-! ## Tags by keyword and label -/

theorem Directive.exists_keyword {d : Directive} (h : d ≠ .interpolation) :
    ∃ kw, IsKeyword kw ∧ d.pattern = Pattern.keyword kw := by
  cases d with
  | interpolation => exact absurd rfl h
  | _ => exact ⟨_, by decide, rfl⟩

namespace Pattern

/-- The pattern finds the tags that close a body, with a keyword and such labels as `L` allows. -/
structure Closes (p : Pattern) (kw : Text) (L : Text → Prop) : Prop where
  keyword : IsKeyword kw
  anchored : Anchored p
  isClosing {t : Text} {tag : Tag} (h : p t = some tag) :
    ∃ label, L label ∧ IsClosing kw label tag.source
  isSome {label s : Text} (hl : L label) (hs : IsClosing kw label s) (r : Text) : (p (s ++ r)).isSome
  label_part {label : Text} (hl : L label) : label.all isLabelPart

theorem closes_bare {kw : Text} (hkw : IsKeyword kw) : (bare kw).Closes kw (· = []) where
  keyword := hkw
  anchored := anchored_bare kw
  isClosing h := ⟨[], rfl, isClosing_of_bare_eq_some hkw h⟩
  isSome hl hs r := (isSome_bare_iff_isClosing hkw).2 ⟨_, r, rfl, hl ▸ hs⟩
  label_part hl := by rw [hl]; rfl

theorem closes_labelled {kw : Text} (hkw : IsKeyword kw) :
    (labelled kw).Closes kw (fun label => label.all isLabelPart) where
  keyword := hkw
  anchored := anchored_labelled kw
  isClosing h := ⟨_, (isClosing_of_labelled_eq_some hkw h).symm⟩
  isSome hl hs r := (isSome_labelled_iff_isClosing hkw).2 ⟨_, _, r, rfl, hs, hl⟩
  label_part hl := hl

/-- The tags that close a body; only those of blocks have labels. -/
theorem exists_closes {d : Directive} {p : Pattern} (h : d.closing? = some p) :
    ∃ kw L, p.Closes kw L ∧ ∀ label, L label → label ≠ [] → kw = "endblock".toList := by
  cases d with
  | block =>
    obtain rfl := Option.some.inj h
    exact ⟨_, _, closes_labelled (by decide), fun _ _ _ => rfl⟩
  | loop | condition =>
    obtain rfl := Option.some.inj h
    exact ⟨_, _, closes_bare (by decide), fun _ hl hne => absurd hl hne⟩
  | _ => cases h

theorem exists_mem_tags_of_occursIn {p : Pattern} {t : Text} (h : p.occursIn t = true) :
    ∃ tag, tag ∈ p.tags t := by
  rw [← isSome_find?] at h
  obtain ⟨tag, htag⟩ := Option.isSome_iff_exists.1 h
  obtain ⟨f, hf, hs⟩ := List.exists_of_findSome?_eq_some htag
  exact ⟨tag, List.mem_filterMap.2 ⟨f, hf, hs⟩⟩

/-- **A tag that closes a body** stays in a rephrased text, if no stretch begins in its keyword or
its label. -/
theorem Closes.occursIn_rephrased {p : Pattern} {kw : Text} {L : Text → Prop} (hp : p.Closes kw L)
    {Q : Text → Text → Prop} {joined : Bool} {t t' : Text} (h : Rephrases Q joined t t')
    (hkw : Rephrases.Untouched Q kw)
    (hl : ∀ tag ∈ p.tags t, ∀ label, L label → IsClosing kw label tag.source →
      Rephrases.Untouched Q label)
    (ho : p.occursIn t = true) : p.occursIn t' = true := by
  obtain ⟨tag, htag⟩ := exists_mem_tags_of_occursIn ho
  obtain ⟨a, b, rfl, hb⟩ := exists_of_mem_tags hp.anchored htag
  obtain ⟨label, hL, hs⟩ := hp.isClosing hb
  obtain ⟨a', r', rfl⟩ := h.exists_isClosing hs hkw (hl tag htag label hL hs)
  exact (occursIn_iff hp.anchored).2 ⟨a', _, rfl, hp.isSome hL hs r'⟩

end Pattern

namespace Iteration

variable {it : Iteration}

/-! ## Keywords and labels as paths of their tags -/

theorem separates_opening {b : Text} (hb : b.all isBlank) : ∀ c ∈ opening ++ b, Separates c :=
  separates_append (separates_start false) (separates_of_isBlank hb)

/-- The keyword of a tag is its first path. -/
theorem head?_paths_of_keyword {kw t : Text} {tag : Tag} (hkw : IsKeyword kw)
    (h : Pattern.keyword kw t = some tag) : tag.paths.head? = some kw := by
  obtain ⟨b, i, x, r, hs, -, hb, hne, hi, -⟩ := Pattern.exists_of_keyword_eq_some hkw h
  obtain ⟨k, ks, rfl⟩ := List.exists_cons_of_ne_nil hkw.1
  obtain ⟨c, i, rfl⟩ := List.exists_cons_of_ne_nil hne
  have hpart := isPathPart_of_keyword hkw
  have hc : isPathPart c = false := (blank_separates (Bool.and_eq_true_iff.1 hi).1).1
  have hsource : tag.source = opening ++ b ++ (k :: (ks ++ c :: (i ++ (x ++ closing)))) := by
    rw [hs]
    simp
  rw [Tag.paths, hsource, pathsFrom_separators (separates_opening hb), Tag.pathsFrom,
    if_neg (not_quote_of_isPathPart (hpart k (by simp))),
    if_pos (by simp [isPathStart_of_isLower (hkw.2 k (by simp))]),
    pathsFrom_path (fun x hx => hpart x (by simp [hx])) hc]
  rfl

theorem not_quote_of_isLabelPart {c : Char} (h : Pattern.isLabelPart c = true) :
    (c == '"' || c == '\'') = false := by
  cases hq : c == '"' || c == '\'' with
  | false => rfl
  | true =>
    rcases Bool.or_eq_true_iff.1 hq with hq | hq <;> rw [eq_of_beq hq] at h <;>
      exact absurd h (by decide)

/-- **The keyword and the label** of a tag that closes a body are paths of the tag, so that no path
that is replaced begins in them if the variable is none of these. -/
theorem untouched_of_isClosing {kw label : Text} {tag : Tag} (hkw : IsKeyword kw)
    (hla : label.all Pattern.isLabelPart) (hs : IsClosing kw label tag.source)
    (hv : it.header.variableName ∉ tag.paths) :
    Rephrases.Untouched it.Rewrites kw ∧ Rephrases.Untouched it.Rewrites label := by
  obtain ⟨b, i, e, hs, hb, hi, he, hne⟩ := hs
  have hpart := isPathPart_of_keyword hkw
  have hopen := separates_opening hb
  have hdot := Pattern.dot_not_mem_label hla
  obtain ⟨d, q, hd, hdp⟩ : ∃ d q, e ++ closing = d :: q ∧ isPathPart d = false := by
    cases e with
    | nil => exact ⟨'%', ['}'], rfl, by decide⟩
    | cons d e => exact ⟨d, e ++ closing, rfl, (blank_separates (Bool.and_eq_true_iff.1 he).1).1⟩
  constructor
  · obtain ⟨c, r, hc, hcp⟩ : ∃ c r, i ++ (label ++ (e ++ closing)) = c :: r ∧
        isPathPart c = false := by
      cases i with
      | nil => exact ⟨d, q, by rw [hne rfl]; exact hd, hdp⟩
      | cons c i => exact ⟨c, _, rfl, (blank_separates (Bool.and_eq_true_iff.1 hi).1).1⟩
    refine untouched_of_ne hkw fun heq => hv ?_
    rw [Tag.paths, hs, List.append_assoc (opening ++ b), hc, heq]
    refine Tag.mem_pathsFrom (fun x hx => by simpa using (hopen x hx).2) hkw.1 hpart ?_ ?_ hcp
    · intro k hk
      exact isPathStart_of_isLower (hkw.2 k (List.mem_of_mem_head? hk))
    · exact joinedBehind_of_forall (fun x hx => (hopen x hx).1) (by simp [opening]) false
  · by_cases hl : label = []
    · rw [hl]
      exact .nil
    have hine : i ≠ [] := fun hi => hl (hne hi)
    have hblank := separates_of_isBlank hi
    refine untouched_label (opening ++ b ++ kw ++ i) q hdot ?_ ?_ hdp ?_
    · intro x hx
      simp only [List.mem_append, or_assoc] at hx
      rcases hx with hx | hx | hx | hx | hx
      · simpa using (hopen x (List.mem_append_left _ hx)).2
      · simpa using (hopen x (List.mem_append_right _ hx)).2
      · simpa using not_quote_of_isPathPart (hpart x hx)
      · simpa using (hblank x hx).2
      · exact not_quote_of_isLabelPart (List.all_eq_true.1 hla x hx)
    · rw [joinedBehind_append]
      exact joinedBehind_of_forall (fun x hx => (hblank x hx).1) hine _
    · rw [← hd, List.append_assoc (opening ++ b ++ kw), ← hs]
      exact hv

/-! ## Resolving -/

section Loop

variable (hc : ∀ c ∈ it.header.collection, isPathPart c = true)
  (hne : it.header.collection ≠ []) (hk : ∀ c ∈ it.key, isPathPart c = true)
include hc hne hk

theorem occursIn_resolveText {d : Directive} (hd : d ≠ .interpolation) {t : Text}
    (hkeyword : ∀ tag ∈ d.pattern.tags t, tag.paths.head? ≠ some it.header.variableName)
    (hlit : ∀ tag ∈ Pattern.span.tags t, ∀ p ∈ tag.paths, it.Splices p → IsInert it.literal) :
    d.occursIn (it.resolveText t) = d.occursIn t := by
  obtain ⟨kw, hkw, hp⟩ := Directive.exists_keyword hd
  have h := rephrases_resolveText hc hne hk hlit false
  rw [Directive.occursIn, Directive.occursIn, hp, Bool.eq_iff_iff]
  rw [hp] at hkeyword
  constructor
  · exact h.symm.occursIn_keyword hkw (untouched_resolved hc hne (dot_not_mem_keyword hkw))
  · intro ho
    obtain ⟨tag, htag⟩ := Pattern.exists_mem_tags_of_occursIn ho
    obtain ⟨a, b, -, hb⟩ := Pattern.exists_of_mem_tags (Pattern.anchored_keyword kw) htag
    have hv : it.header.variableName ≠ kw := fun heq =>
      hkeyword tag htag (heq ▸ head?_paths_of_keyword hkw hb)
    exact h.occursIn_keyword hkw (untouched_of_ne hkw hv) ho

theorem closesIn_resolveText {p : Pattern} {kw : Text} {L : Text → Prop} (hp : p.Closes kw L)
    {t : Text} (hlabel : ∀ tag ∈ p.tags t, it.header.variableName ∉ tag.paths)
    (hlit : ∀ tag ∈ Pattern.span.tags t, ∀ p ∈ tag.paths, it.Splices p → IsInert it.literal) :
    p.occursIn (it.resolveText t) = p.occursIn t := by
  have h := rephrases_resolveText hc hne hk hlit false
  rw [Bool.eq_iff_iff]
  constructor
  · exact hp.occursIn_rephrased h.symm
      (untouched_resolved hc hne (dot_not_mem_keyword hp.keyword)) fun _ _ label hL _ =>
        untouched_resolved hc hne (Pattern.dot_not_mem_label (hp.label_part hL))
  · intro ho
    obtain ⟨tag, htag⟩ := Pattern.exists_mem_tags_of_occursIn ho
    obtain ⟨a, b, -, hb⟩ := Pattern.exists_of_mem_tags hp.anchored htag
    obtain ⟨label, hL, hs⟩ := hp.isClosing hb
    have hkw := (untouched_of_isClosing hp.keyword (hp.label_part hL) hs (hlabel tag htag)).1
    exact hp.occursIn_rephrased h hkw (fun tag htag label hL hs =>
      (untouched_of_isClosing hp.keyword (hp.label_part hL) hs (hlabel tag htag)).2) ho

end Loop

/-! ## Numbering -/

/-- No interpolation begins in a text without braces. -/
theorem untouched_index {s : Text} (hs : '{' ∉ s) : Rephrases.Untouched it.Numbers s := by
  refine .of_head fun x x' hx c hc hm => ?_
  obtain ⟨rest, hi⟩ := hx.index
  obtain ⟨inner, -, -, he, -⟩ := Pattern.exists_of_index_eq_some hi
  obtain rfl : x = enclose true inner := congrArg Tag.source he
  obtain rfl : '{' = c := by simpa [enclose, start, openingBraces] using hc
  exact hs hm

theorem brace_not_mem_keyword {kw : Text} (hkw : IsKeyword kw) : '{' ∉ kw := fun h =>
  absurd (isPathPart_of_keyword hkw _ h) (by decide)

theorem occursIn_numbered {d : Directive} (hd : d ≠ .interpolation) {t : Text}
    (hn : ∀ tag ∈ Pattern.index.tags t, '\n' ∉ tag.source) :
    d.occursIn (it.numbered t) = d.occursIn t := by
  obtain ⟨kw, hkw, hp⟩ := Directive.exists_keyword hd
  have h := rephrases_numbered it hn false
  rw [Directive.occursIn, Directive.occursIn, hp, Bool.eq_iff_iff]
  exact ⟨h.symm.occursIn_keyword hkw (untouched_number hkw),
    h.occursIn_keyword hkw (untouched_index (brace_not_mem_keyword hkw))⟩

end Iteration

/-- Whether the text begins like a tag that closes a block and the interpolation that numbers the
iterations stands in its label. -/
def Tag.numbersLabel (t : Text) : Bool :=
  match keyword? "endblock".toList t with
  | none => false
  | some (_, rest) =>
    !(Text.indent rest).isEmpty &&
      (Pattern.index ((Text.trimStart rest).dropWhile Pattern.isLabelPart)).isSome

/-- Whether a tag that closes a block is numbered in its label somewhere in the text. -/
def Text.numbersLabel : Text → Bool
  | [] => false
  | c :: cs => Tag.numbersLabel (c :: cs) || numbersLabel cs

theorem Text.numbersLabel_append {a t : Text} (h : Tag.numbersLabel t = true) :
    numbersLabel (a ++ t) = true := by
  induction a with
  | nil =>
    cases t with
    | nil => cases h
    | cons c cs => simp [numbersLabel, h]
  | cons c a ih => simp [numbersLabel, ih]

theorem Tag.numbersLabel_of_index {b i p x rest v : Text} (hb : b.all isBlank) (hne : i ≠ [])
    (hi : i.all isBlank) (hp : p.all Pattern.isLabelPart)
    (hx : Pattern.index (x ++ rest) = some ⟨x, []⟩) :
    numbersLabel (opening ++ b ++ "endblock".toList ++ (i ++ (p ++ (x ++ v)))) = true := by
  have hk := (keyword?_eq_some_iff (by decide)).2
    ⟨b, hb, rfl, (rfl : opening ++ b ++ "endblock".toList ++ (i ++ (p ++ (x ++ v))) = _)⟩
  obtain ⟨inner, -, -, he, -⟩ := Pattern.exists_of_index_eq_some hx
  obtain ⟨y, rfl⟩ : ∃ y, x = '{' :: y := ⟨_, (congrArg Tag.source he : x = _)⟩
  have hhead : ∀ c ∈ (p ++ ('{' :: y ++ v)).head?, isBlank c = false := by
    cases p with
    | nil =>
      rintro c ⟨⟩
      decide
    | cons c p =>
      rintro d ⟨⟩
      cases hc : isBlank c with
      | false => rfl
      | true => simp [Pattern.not_isLabelPart_of_isBlank hc] at hp
  have hdrop : (p ++ ('{' :: y ++ v)).dropWhile Pattern.isLabelPart = '{' :: y ++ v := by
    rw [List.dropWhile_append_of_pos (by simpa using hp)]
    exact List.dropWhile_cons_of_neg (by decide)
  unfold numbersLabel
  rw [hk]
  simp only [Text.indent_append hi hhead, Text.trimStart_append hi hhead, hdrop,
    Pattern.index_append hx]
  simp [hne]

namespace Iteration

variable {it : Iteration}

theorem closesIn_numbered {p : Pattern} {kw : Text} {L : Text → Prop} (hp : p.Closes kw L)
    (hend : ∀ label, L label → label ≠ [] → kw = "endblock".toList) {t : Text}
    (hn : ∀ tag ∈ Pattern.index.tags t, '\n' ∉ tag.source) (hl : Text.numbersLabel t = false) :
    p.occursIn (it.numbered t) = p.occursIn t := by
  have h := rephrases_numbered it hn false
  have hbrace : ∀ label, L label → '{' ∉ label := fun label hL hm =>
    absurd (List.all_eq_true.1 (hp.label_part hL) _ hm) (by decide)
  rw [Bool.eq_iff_iff]
  constructor
  · intro ho
    obtain ⟨a, b, ht, hb⟩ := (Pattern.occursIn_iff hp.anchored).1 ho
    obtain ⟨tag, htag⟩ := Option.isSome_iff_exists.1 hb
    obtain ⟨-, r, rfl⟩ := hp.anchored htag
    obtain ⟨label, hL, hs⟩ := hp.isClosing htag
    rcases (ht ▸ h.symm).isClosing_or_begun hs (untouched_number hp.keyword) with
      ⟨a', r', rfl⟩ | ⟨a', b, i, q, y, u, x, x', v, v', rfl, hb, hine, hi, hlab, hy, -, -, hx, -⟩
    · exact (Pattern.occursIn_iff hp.anchored).2 ⟨a', _, rfl, hp.isSome hL hs r'⟩
    · -- the number would stand in the label
      obtain ⟨rest, hindex⟩ := hx.index
      obtain rfl := hend label hL (by simp [hlab, hy])
      have hq : q.all Pattern.isLabelPart := by
        have hall := hp.label_part hL
        rw [hlab, List.all_append, Bool.and_eq_true] at hall
        exact hall.1
      rw [Text.numbersLabel_append (numbersLabel_of_index hb hine hi hq hindex)] at hl
      cases hl
  · exact hp.occursIn_rephrased h (untouched_index (brace_not_mem_keyword hp.keyword))
      fun _ _ label hL _ => untouched_index (hbrace label hL)

/-! ## Expanding -/

/-- What an iteration leaves of the tags of a text inside `depth` loops within the body. The
variable is no keyword of a tag and no part of the label of one; the text of the element is inert,
if a path takes it in; and an interpolation that numbers the iterations stands on one line, and in
no label of a tag that closes a block. -/
structure KeepsTags (it : Iteration) (depth : Nat) (t : Text) : Prop where
  keyword : ∀ d : Directive, d ≠ .interpolation → ∀ tag ∈ d.pattern.tags t,
    tag.paths.head? ≠ some it.header.variableName
  label : ∀ d : Directive, ∀ p ∈ d.closing?, ∀ tag ∈ p.tags t, it.header.variableName ∉ tag.paths
  literal : ∀ tag ∈ Pattern.span.tags t, ∀ p ∈ tag.paths, it.Splices p → IsInert it.literal
  index_line : depth = 0 → ∀ tag ∈ Pattern.index.tags (it.resolveText t), '\n' ∉ tag.source
  index_label : depth = 0 → Text.numbersLabel (it.resolveText t) = false

/-- The number of loops around a line within the body, when `before` stands before it. -/
def depthOf (before : List Line) (line : Line) : Nat :=
  depthAt (before.foldl depthBehind 0) line

section Loop

variable (hc : ∀ c ∈ it.header.collection, isPathPart c = true)
  (hne : it.header.collection ≠ []) (hk : ∀ c ∈ it.key, isPathPart c = true)
include hc hne hk

theorem occursIn_expandText {d : Directive} (hd : d ≠ .interpolation) {depth : Nat} {t : Text}
    (h : it.KeepsTags depth t) : d.occursIn (it.expandText depth t) = d.occursIn t := by
  have hresolve := occursIn_resolveText hc hne hk hd (h.keyword d hd) h.literal
  unfold expandText
  split
  · next hdepth => rw [occursIn_numbered hd (h.index_line hdepth), hresolve]
  · exact hresolve

theorem closesIn_expandText (d : Directive) {depth : Nat} {t : Text} (h : it.KeepsTags depth t) :
    d.closesIn (it.expandText depth t) = d.closesIn t := by
  unfold Directive.closesIn
  cases hp : d.closing? with
  | none => rfl
  | some p =>
    obtain ⟨kw, L, hcl, hend⟩ := Pattern.exists_closes hp
    have hresolve := closesIn_resolveText hc hne hk hcl (h.label d p hp) h.literal
    unfold expandText
    simp only
    split
    · next hdepth =>
      rw [closesIn_numbered hcl hend (h.index_line hdepth) (h.index_label hdepth), hresolve]
    · exact hresolve

end Loop

theorem getElem?_expandFrom (it : Iteration) (depth : Nat) (before : List Line) (line : Line)
    (after : List Line) :
    (it.expandFrom depth (before ++ line :: after))[before.length]? =
      some (it.expandLine (depthAt (before.foldl depthBehind depth) line) line) := by
  induction before generalizing depth with
  | nil => rfl
  | cons l before ih => exact ih _

/-- **Loop expansion keeps the tags of a line.** The line of the expanded body is the line with
references to the variable resolved, and numbered if it stands in no loop within the body; it holds
each directive, and each tag that closes a body, exactly when the line does. -/
theorem expand_keeps_tags {argument : Text}
    (hh : LoopHeader.ofArgument? argument = some it.header) (hk : ∀ c ∈ it.key, c.isDigit = true)
    (before : List Line) {line : Line} (after : List Line) (hr : line.rendered = false)
    (h : it.KeepsTags (depthOf before line) line.text) :
    ∃ line', (it.expand (before ++ line :: after))[before.length]? = some line' ∧
      (∃ t, Rephrases it.Rewrites false line.text t ∧
        line'.text = if depthOf before line = 0 then it.numbered t else t) ∧
      ∀ d : Directive, (d ≠ .interpolation → d.occursIn line'.text = d.occursIn line.text) ∧
        d.closesIn line'.text = d.closesIn line.text := by
  obtain ⟨-, -, hpath⟩ := LoopHeader.ofArgument?_eq_some_iff.1 hh
  obtain ⟨hne, hc⟩ := LoopHeader.isPath_iff.1 hpath
  have hkp : ∀ c ∈ it.key, isPathPart c = true := fun c hc => isPathPart_of_isDigit (hk c hc)
  refine ⟨_, getElem?_expandFrom it 0 before line after,
    ⟨_, rephrases_resolveText hc hne hkp h.literal false, text_expandLine hr⟩, fun d => ?_⟩
  have htext : (it.expandLine (depthOf before line) line).text = _ := text_expandLine hr
  exact ⟨fun hd => htext ▸ occursIn_expandText hc hne hkp hd h,
    htext ▸ closesIn_expandText hc hne hkp d h⟩

/-- A line that opens a condition on the element and takes in its text. -/
theorem expand_keeps_tags_row :
    let it : Iteration := ⟨⟨"row".toList, "rows".toList⟩, "0".toList, "total".toList, 0⟩
    let title : Line := { text := "\x7b\x7b row \x7d\x7d".toList }
    let line : Line := { text := "\x7b% if row %\x7d\x7b\x7b sums.row \x7d\x7d".toList }
    ∃ line', (it.expand [title, line])[1]? = some line' ∧
      Directive.condition.occursIn line'.text = true ∧
      Directive.condition.closesIn line'.text = false := by
  intro it title line
  have hh : LoopHeader.ofArgument? "row in rows".toList = some it.header := by decide +kernel
  have hkeeps : it.KeepsTags (depthOf [title] line) line.text :=
    { keyword := by
        intro d hd
        cases d with
        | interpolation => exact absurd rfl hd
        | _ => decide +kernel
      label := by
        intro d p hp
        cases d with
        | block | loop | condition =>
          obtain rfl := Option.some.inj hp
          decide +kernel
        | _ => cases hp
      literal := fun _ _ _ _ _ => .of_isPathPart (by decide)
      index_line := by decide +kernel
      index_label := by decide +kernel }
  obtain ⟨line', hline, -, htags⟩ := expand_keeps_tags hh (by decide) [title] [] rfl hkeeps
  refine ⟨line', hline, ?_, ?_⟩
  · rw [(htags .condition).1 (by decide)]
    decide +kernel
  · rw [(htags .condition).2]
    decide +kernel

/-- An expansion changes what occurs in a line if the variable is the keyword of a tag, or a part of
a label; if the number of the iteration comes to be a label; if a path takes in a line end; and if
an interpolation reaches over a line end. -/
theorem expand_changes_tags :
    ([("if in xs", "1", "\x7b% if a %\x7d", Directive.condition.occursIn),
      ("b in xs", "1", "\x7b% endblock b %\x7d", Directive.block.closesIn),
      ("b in xs", "1", "\x7b% endblock \x7b\x7b index \x7d\x7d %\x7d", Directive.block.closesIn),
      ("x in xs", "\n", "\x7b% if a.x or b %\x7d", Directive.condition.occursIn),
      ("x in xs", "1", "\x7b% if \x7b\x7b index\n \x7d\x7d %\x7d", Directive.condition.occursIn)] :
      List (String × String × String × (Text → Bool))).all
        (fun (argument, literal, text, holds) =>
          (LoopHeader.ofArgument? argument.toList).any fun header =>
            ((Iteration.mk header "0".toList literal.toList 0).expand [{ text := text.toList }]).all
              fun line' => holds line'.text != holds text.toList) = true := by
  decide +kernel

end Iteration

end Stencil
