import Mathlib.Data.List.Infix
import Stencil.Proofs.Expansion.Splicing
import Stencil.Proofs.Tag.Reach

/-!
# What is put into a tag

The keys and the elements of a collection come from the data, and they are put into the tags of a
body as they are. What is put into a tag stays in it (`scan_resolveText`) unless it closes a span:
the tag itself, before its end, or what an opening delimiter before the tag has left open
(`Iteration.Confines`). What matters is the path together with the character behind it, as a path
may end in the first half of a delimiter.

A path is put in as a whole between two characters that are no part of one, so that a closing
delimiter arises within one such stretch or not at all (`resolveFrom_confined`).
-/

namespace Stencil

open Tag

namespace Iteration

variable (it : Iteration)

/-- What the paths of a tag become, each with a character that stands behind it in the tag. -/
def insertions (tag : Tag) : List Text :=
  tag.paths.flatMap fun p =>
    (tag.source.filter fun c => !isPathPart c && decide ((p ++ [c]) <:+: tag.source)).map fun c =>
      it.resolved p ++ [c]

/-- Nothing that is put into the tag closes a span of the kind. -/
def Keeps (braces : Bool) (tag : Tag) : Prop := ∀ x ∈ it.insertions tag, ¬ stop braces <:+: x

instance (braces : Bool) : DecidablePred (it.Keeps braces) :=
  fun tag => inferInstanceAs (Decidable (∀ x ∈ it.insertions tag, _))

/-- What is put into the tags of a text stays where it is put: it holds no line end, it does not
close the tag before its end, and it does not close what an opening delimiter left open before the
tag, on the same line. -/
def Confines : List Fragment → Prop
  | [] => True
  | .char c :: rest =>
    (∀ braces, Text.startsWith (start braces) (c :: rest.flatMap Fragment.source) = true →
      ∀ tag ∈ (rest.takeWhile (· ≠ .char '\n')).filterMap Fragment.tag?, it.Keeps braces tag) ∧
    Confines rest
  | .tag tag :: rest =>
    (∀ x ∈ it.insertions tag, '\n' ∉ x) ∧
    (∀ braces, Text.startsWith (start braces) tag.source = true → it.Keeps braces tag) ∧
    Confines rest

instance Confines.decidable (it : Iteration) : (fs : List Fragment) → Decidable (it.Confines fs)
  | [] => .isTrue trivial
  | .char _ :: rest =>
    have := Confines.decidable it rest
    inferInstanceAs (Decidable ((∀ _, _ → ∀ tag ∈ _, it.Keeps _ tag) ∧ it.Confines rest))
  | .tag tag :: rest =>
    have := Confines.decidable it rest
    inferInstanceAs (Decidable ((∀ x ∈ it.insertions tag, _) ∧ (∀ _, _ → it.Keeps _ tag) ∧
      it.Confines rest))

/-- What becomes of a part of a text. -/
def resolveFragment : Fragment → Fragment
  | .char c => .char c
  | .tag tag => .tag ⟨it.resolveTag tag.source, []⟩

variable {it}

variable (it) in
theorem mem_insertions {tag : Tag} {p : Text} {c : Char} (hp : p ∈ tag.paths)
    (hc : isPathPart c = false) (h : p ++ [c] <:+: tag.source) :
    it.resolved p ++ [c] ∈ it.insertions tag :=
  List.mem_flatMap.2 ⟨p, hp, List.mem_map.2 ⟨c, List.mem_filter.2
    ⟨h.subset (by simp), by simp [hc, h]⟩, rfl⟩⟩

/-! ## The end of a tag -/

variable (it) in
theorem Reading.read_nil {mode : Reading} (h : ∀ reversed, mode ≠ .path reversed) :
    it.resolveFrom mode [] = [] ∧ Tag.pathsFrom mode [] = [] := by
  cases mode with
  | path reversed => exact absurd rfl (h reversed)
  | _ => exact ⟨rfl, rfl⟩

variable (it) in
/-- A character of no path at the end of a text ends the last path and stays. -/
theorem read_concat {c : Char} (hc : isPathPart c = false) (mode : Reading) (cs : Text) :
    it.resolveFrom mode (cs ++ [c]) = it.resolveFrom mode cs ++ [c] ∧
      Tag.pathsFrom mode (cs ++ [c]) = Tag.pathsFrom mode cs := by
  have pass : ∀ {mode : Reading} {d : Char} {cs : Text}, mode.takes d = false →
      it.resolveFrom (mode.behind d) (cs ++ [c]) = it.resolveFrom (mode.behind d) cs ++ [c] ∧
        Tag.pathsFrom (mode.behind d) (cs ++ [c]) = Tag.pathsFrom (mode.behind d) cs →
      it.resolveFrom mode (d :: cs ++ [c]) = it.resolveFrom mode (d :: cs) ++ [c] ∧
        Tag.pathsFrom mode (d :: cs ++ [c]) = Tag.pathsFrom mode (d :: cs) := by
    intro mode d cs ht ih
    rw [List.cons_append, resolveFrom_pass ht, resolveFrom_pass ht, pathsFrom_pass ht,
      pathsFrom_pass ht, ih.1, ih.2]
    exact ⟨rfl, rfl⟩
  induction cs generalizing mode with
  | nil =>
    have last : ∀ {mode : Reading}, mode.takes c = false →
        it.resolveFrom mode [c] = [c] ∧ Tag.pathsFrom mode [c] = [] := by
      intro mode ht
      have hend : it.resolveFrom (mode.behind c) [] = [] ∧ Tag.pathsFrom (mode.behind c) [] = [] :=
        Reading.read_nil it fun _ => Reading.behind_ne_path
      rw [resolveFrom_pass ht, pathsFrom_pass ht, hend.1, hend.2]
      exact ⟨rfl, rfl⟩
    cases mode with
    | plain joined => exact last (Reading.takes_plain hc joined)
    | quoted quote => exact last rfl
    | path reversed =>
      have h := last (Reading.takes_plain hc false)
      rw [List.nil_append, resolveFrom_end hc, pathsFrom_end hc, h.1, h.2]
      exact ⟨rfl, rfl⟩
  | cons d cs ih =>
    cases mode with
    | plain joined =>
      cases ht : (Reading.plain joined).takes d with
      | false => exact pass ht (ih _)
      | true =>
        rw [List.cons_append, resolveFrom_start ht, resolveFrom_start ht, pathsFrom_start ht,
          pathsFrom_start ht]
        exact ih _
    | quoted quote => exact pass rfl (ih _)
    | path reversed =>
      cases hd : isPathPart d with
      | true =>
        rw [List.cons_append, resolveFrom_part hd, resolveFrom_part hd, pathsFrom_part hd,
          pathsFrom_part hd]
        exact ih _
      | false =>
        have h := pass (Reading.takes_plain hd false) (ih ((Reading.plain false).behind d))
        rw [List.cons_append] at h ⊢
        rw [resolveFrom_end hd, resolveFrom_end hd, pathsFrom_end hd, pathsFrom_end hd, h.1, h.2]
        exact ⟨by simp, rfl⟩

theorem pathsFrom_concat {c : Char} (hc : isPathPart c = false) (mode : Reading) (cs : Text) :
    Tag.pathsFrom mode (cs ++ [c]) = Tag.pathsFrom mode cs :=
  -- all iterations read the same paths
  (read_concat ⟨⟨[], []⟩, [], [], 0⟩ hc mode cs).2

/-- A tag is resolved between its delimiters. -/
theorem resolveTag_enclose (braces : Bool) (inner : Text) :
    it.resolveTag (enclose braces inner) =
      enclose braces (it.resolveFrom (.plain false) inner) := by
  have hsplit : enclose braces inner = start braces ++ (inner ++ [stopHead braces] ++ ['}']) := by
    simp [enclose, stop_eq_cons]
  rw [resolveTag, hsplit, resolveFrom_separators (separates_start braces),
    (read_concat it (by decide) _ _).1,
    (read_concat it (isPathPart_stopHead braces) _ _).1]
  simp [enclose, stop_eq_cons]

theorem paths_enclose (braces : Bool) (inner argument : Text) :
    Tag.paths ⟨enclose braces inner, argument⟩ = Tag.pathsFrom (.plain false) inner := by
  have hsplit : enclose braces inner = start braces ++ (inner ++ [stopHead braces] ++ ['}']) := by
    simp [enclose, stop_eq_cons]
  rw [Tag.paths, hsplit, pathsFrom_separators (separates_start braces),
    pathsFrom_concat (by decide), pathsFrom_concat (isPathPart_stopHead braces)]

section Collection

variable (hc : ∀ c ∈ it.header.collection, isPathPart c = true) (hne : it.header.collection ≠ [])
include hc hne

/-! ## What a tag becomes -/

/-- What a path becomes begins with a character of a path. -/
theorem exists_head_resolved {p : Text} (hpne : p ≠ []) (hp : ∀ c ∈ p, isPathPart c = true)
    (hstart : ∀ c ∈ p.head?, isPathStart c = true) :
    ∃ c u, it.resolved p = c :: u ∧ isPathPart c = true := by
  have hcons : ∀ {u v : Text}, u ≠ [] → (∀ c ∈ u, isPathPart c = true) → it.resolved p = u ++ v →
      ∃ c u, it.resolved p = c :: u ∧ isPathPart c = true := by
    intro u v hu hpart hres
    obtain ⟨c, u, rfl⟩ := List.exists_cons_of_ne_nil hu
    exact ⟨c, u ++ v, hres, hpart c (by simp)⟩
  by_cases hv : it.header.variableName ∈ Context.segments p
  · obtain ⟨u, v, hres, hu, hpart⟩ := Rewrites.exists_dot hc hne ⟨hp, hstart, hv, rfl⟩
    exact hcons hu hpart hres
  · exact hcons (v := []) hpne hp (by rw [resolved_eq_self hv, List.append_nil])

/-- **No closing delimiter arises** in a part of a tag, and no line end, if none is put in. -/
theorem resolveFrom_confined {s cs : Text} {braces : Bool} (hs : cs <:+: s)
    (hp : ∀ p ∈ Tag.pathsFrom (.plain false) cs, ∀ c, isPathPart c = false → p ++ [c] <:+: s →
      '\n' ∉ it.resolved p ++ [c] ∧ ¬ stop braces <:+: it.resolved p ++ [c])
    (he : EndsOutside cs) (hn : '\n' ∉ cs) (hstop : ¬ stop braces <:+: cs) :
    '\n' ∉ it.resolveFrom (.plain false) cs ∧
      ¬ stop braces <:+: it.resolveFrom (.plain false) cs := by
  have hR : ((it.resolveFrom (.plain false) cs).head? = some '}' → cs.head? = some '}') ∧
      ('\n' ∉ cs → '\n' ∉ it.resolveFrom (.plain false) cs) ∧
      (¬ stop braces <:+: cs → ¬ stop braces <:+: it.resolveFrom (.plain false) cs) :=
    (resolveFrom_induction (R := fun _ _ t t' => t <:+: s →
      (t'.head? = some '}' → t.head? = some '}') ∧ ('\n' ∉ t → '\n' ∉ t') ∧
        (¬ stop braces <:+: t → ¬ stop braces <:+: t'))
    (P := fun p => ∀ c, isPathPart c = false → p ++ [c] <:+: s →
      '\n' ∉ it.resolved p ++ [c] ∧ ¬ stop braces <:+: it.resolved p ++ [c])
    (fun _ _ _ _ => ⟨id, id, id⟩) ?_ ?_ cs).1 false he hp hs
  · exact ⟨hR.2.1 hn, hR.2.2 hstop⟩
  · intro mode joined c t t' _ ih hs
    obtain ⟨hhead, hnewline, hstop⟩ := ih ((List.suffix_cons c t).isInfix.trans hs)
    refine ⟨id, fun h => ?_, fun h => ?_⟩
    · simp only [List.mem_cons, not_or] at h ⊢
      exact ⟨h.1, hnewline h.2⟩
    · rw [stop_infix_cons] at h ⊢
      rintro (⟨rfl, h'⟩ | h')
      · exact h (.inl ⟨rfl, hhead h'⟩)
      · exact hstop (fun hi => h (.inr hi)) h'
  · intro w c t t' hwne hw hstart hcp hP ih hs
    obtain ⟨-, hnewline, hstop⟩ := ih false ((List.suffix_append w (c :: t)).isInfix.trans hs)
    have hplace : w ++ [c] <:+: s := by
      refine List.IsInfix.trans (List.IsPrefix.isInfix ⟨t, ?_⟩) hs
      simp
    obtain ⟨hn', hs'⟩ := hP c hcp hplace
    obtain ⟨d, u, hres, hd⟩ := exists_head_resolved hc hne hwne hw hstart
    refine ⟨fun h => ?_, fun h => ?_, fun h => ?_⟩
    · rw [hres, List.cons_append, List.head?_cons, Option.some.injEq] at h
      subst h
      exact absurd hd (by decide)
    · simp only [List.mem_append, not_or] at h hn' ⊢
      exact ⟨hn'.1, hnewline h.2⟩
    · rw [stop_infix_append_cons, not_or] at h ⊢
      exact ⟨hs', hstop h.2⟩

/-- What is put into a tag leaves it one tag. -/
theorem resolveFrom_inner {braces : Bool} {inner : Text} (hn : '\n' ∉ inner)
    (hfirst : ¬ stop braces <:+: inner ++ [stopHead braces])
    (hline : ∀ x ∈ it.insertions ⟨enclose braces inner, []⟩, '\n' ∉ x)
    (hkeeps : it.Keeps braces ⟨enclose braces inner, []⟩) :
    '\n' ∉ it.resolveFrom (.plain false) inner ∧
      ¬ stop braces <:+: it.resolveFrom (.plain false) inner ++ [stopHead braces] := by
  have hd := isPathPart_stopHead braces
  have hs : inner ++ [stopHead braces] <:+: enclose braces inner :=
    ⟨start braces, ['}'], by simp [enclose, stop_eq_cons]⟩
  have hends : EndsOutside (inner ++ [stopHead braces]) := by
    intro c hc
    obtain rfl : stopHead braces = c := by simpa using hc
    exact hd
  have h := resolveFrom_confined hc hne hs (fun p hp c hcp hplace => ?_) hends
    (by simp [hn, Ne.symm (stopHead_ne_newline braces)]) hfirst
  · rw [(read_concat it hd _ _).1] at h
    exact ⟨fun hi => h.1 (List.mem_append_left _ hi), h.2⟩
  · rw [pathsFrom_concat hd, ← paths_enclose braces inner []] at hp
    have hx := mem_insertions it hp hcp hplace
    exact ⟨hline _ hx, hkeeps _ hx⟩

/-- What is put into a tag closes no other span, if it does not hold its closing delimiter. -/
theorem not_stop_infix_resolveTag {braces braces' : Bool} {inner : Text} (hn : '\n' ∉ inner)
    (hstop : ¬ stop braces' <:+: enclose braces inner)
    (hline : ∀ x ∈ it.insertions ⟨enclose braces inner, []⟩, '\n' ∉ x)
    (hkeeps : it.Keeps braces' ⟨enclose braces inner, []⟩) :
    '\n' ∉ it.resolveTag (enclose braces inner) ∧
      ¬ stop braces' <:+: it.resolveTag (enclose braces inner) := by
  refine resolveFrom_confined hc hne (List.infix_refl _) (fun p hp c hcp hplace => ?_)
    (endsOutside_enclose braces inner) ?_ hstop
  · have hx : _ ∈ it.insertions ⟨enclose braces inner, []⟩ := mem_insertions it hp hcp hplace
    exact ⟨hline _ hx, hkeeps _ hx⟩
  · have hdelimiters : '\n' ∉ start braces ∧ '\n' ∉ stop braces := by cases braces <;> decide
    simp [enclose, hn, hdelimiters]

end Collection

/-! ## What a text becomes -/

variable (it) in
theorem head?_resolveText (t : Text) : (it.resolveText t).head? = t.head? := by
  induction t using Pattern.scan_induction Pattern.anchored_span with
  | nil => rfl
  | char c cs h => rw [resolveText_char h]; rfl
  | tag tag rest h =>
    obtain ⟨braces, inner, -, rfl, -⟩ := Pattern.exists_of_span_eq_some h
    obtain ⟨d, hd, -⟩ := start_eq braces
    rw [resolveText, Pattern.replace_tag Pattern.anchored_span _ h, resolveTag_enclose]
    simp [enclose, hd]

section Collection

variable (hc : ∀ c ∈ it.header.collection, isPathPart c = true) (hne : it.header.collection ≠ [])
include hc hne

/-- **What an opening delimiter leaves open** stays open, if nothing that is put in behind it on the
line closes it. -/
theorem upTo?_resolveText {braces : Bool} {t : Text}
    (h : it.Confines (Pattern.span.scan t))
    (hkeeps : ∀ tag ∈ ((Pattern.span.scan t).takeWhile (· ≠ .char '\n')).filterMap Fragment.tag?,
      it.Keeps braces tag)
    (hopen : upTo? (stop braces) t = none) : upTo? (stop braces) (it.resolveText t) = none := by
  induction t using Pattern.scan_induction Pattern.anchored_span with
  | nil => rfl
  | char c cs hspan ih =>
    rw [resolveText_char hspan]
    rw [Pattern.scan_char hspan] at h hkeeps
    by_cases hcn : c = '\n'
    · rw [hcn]
      exact upTo?_stop_newline braces _
    · rw [upTo?_stop_cons_eq_none_iff hcn] at hopen ⊢
      refine ⟨by rw [head?_resolveText]; exact hopen.1, ih h.2 (fun tag htag => hkeeps tag ?_) hopen.2⟩
      rw [List.takeWhile_cons_of_pos (by simpa using hcn)]
      exact htag
  | tag tag rest hspan ih =>
    rw [Pattern.scan_tag Pattern.anchored_span hspan] at h hkeeps
    rw [resolveText, Pattern.replace_tag Pattern.anchored_span _ hspan, ← resolveText]
    obtain ⟨braces', inner, -, rfl, -, hn, -⟩ := Pattern.span_eq_some_iff.1 hspan
    obtain ⟨hline, -, hrest⟩ := h
    rw [List.takeWhile_cons_of_pos (by simp)] at hkeeps
    have hdelimiters : '\n' ∉ start braces' ∧ '\n' ∉ stop braces' := by cases braces' <;> decide
    have hns : '\n' ∉ enclose braces' inner := by simp [enclose, hn, hdelimiters]
    obtain ⟨hmeet, hopen⟩ := (upTo?_append_eq_none_iff hns).1 hopen
    -- the tag ends in the same brace, in front of the same character
    have hlast : ∀ inner', enclose braces' inner' =
        (start braces' ++ inner' ++ [stopHead braces']) ++ ['}'] := fun inner' => by
      simp [enclose, stop_eq_cons]
    rw [hlast, List.append_assoc, List.singleton_append, stop_infix_append_cons, not_or,
      ← hlast] at hmeet
    obtain ⟨hn', hs'⟩ :=
      not_stop_infix_resolveTag hc hne hn hmeet.1 hline (hkeeps _ (by simp [Fragment.tag?]))
    refine (upTo?_append_eq_none_iff hn').2 ⟨?_, ih hrest (fun tag htag => hkeeps tag ?_) hopen⟩
    · rw [resolveTag_enclose] at hs' ⊢
      rw [hlast, List.append_assoc, List.singleton_append, stop_infix_append_cons, not_or, ← hlast,
        head?_resolveText]
      exact ⟨hs', hmeet.2⟩
    · exact List.mem_cons_of_mem _ htag

/-- What begins outside the tags with an opening delimiter is no tag afterwards either. -/
theorem span_char_resolveText {c : Char} {cs : Text} (hspan : Pattern.span (c :: cs) = none)
    (h : it.Confines (Pattern.span.scan (c :: cs))) :
    Pattern.span (c :: it.resolveText cs) = none := by
  rw [Pattern.scan_char hspan] at h
  obtain ⟨hkeeps, hrest⟩ := h
  rw [Pattern.flatMap_source_scan Pattern.anchored_span] at hkeeps
  rw [← Option.not_isSome_iff_eq_none]
  intro hsome
  obtain ⟨braces, r, hr⟩ := Pattern.exists_start_of_isSome_span hsome
  have hopened : ∀ {v}, c :: cs = start braces ++ v → upTo? (stop braces) v = none := by
    intro v hv
    rw [hv, Pattern.span_of_start, Option.map_eq_none_iff] at hspan
    exact hspan
  have hclosed : upTo? (stop braces) r ≠ none := by
    intro hnone
    rw [hr, Pattern.span_of_start, hnone] at hsome
    cases hsome
  have hhead := head?_resolveText it cs
  cases braces with
  | true =>
    obtain ⟨rfl, hbehind⟩ : c = '{' ∧ it.resolveText cs = '{' :: r := by
      simpa [start, openingBraces] using hr
    rw [hbehind] at hhead
    obtain ⟨v, rfl⟩ := List.head?_eq_some_iff.1 hhead.symm
    have hopen : upTo? (stop true) ('{' :: v) = none := by
      rw [upTo?_stop_cons (by simp [stopHead]) (by decide), hopened rfl]
      rfl
    have hresolved :=
      upTo?_resolveText hc hne hrest (hkeeps true (Text.startsWith_iff.2 ⟨v, rfl⟩)) hopen
    rw [hbehind, upTo?_stop_cons (by simp [stopHead]) (by decide),
      Option.map_eq_none_iff] at hresolved
    exact hclosed hresolved
  | false =>
    obtain ⟨rfl, hbehind⟩ : c = '{' ∧ it.resolveText cs = '%' :: r := by
      simpa [start, opening] using hr
    rw [hbehind] at hhead
    obtain ⟨v, rfl⟩ := List.head?_eq_some_iff.1 hhead.symm
    have hchar : Pattern.span ('%' :: v) = none := Pattern.span_eq_none_of_ne (by decide) v
    rw [resolveText_char hchar] at hbehind
    obtain rfl : it.resolveText v = r := (List.cons.inj hbehind).2
    have htags := hkeeps false (Text.startsWith_iff.2 ⟨v, rfl⟩)
    rw [Pattern.scan_char hchar] at hrest htags
    rw [List.takeWhile_cons_of_pos (by decide)] at htags
    exact hclosed (upTo?_resolveText hc hne hrest.2 htags (hopened rfl))

/-- **Resolving the tags of a text** leaves each of them one tag and makes no others. -/
theorem scan_resolveText {t : Text} (h : it.Confines (Pattern.span.scan t)) :
    Pattern.span.scan (it.resolveText t) = (Pattern.span.scan t).map it.resolveFragment := by
  induction t using Pattern.scan_induction Pattern.anchored_span with
  | nil => rfl
  | char c cs hspan ih =>
    have hnone := span_char_resolveText hc hne hspan h
    rw [Pattern.scan_char hspan] at h ⊢
    rw [resolveText_char hspan, Pattern.scan_char hnone, ih h.2]
    rfl
  | tag tag rest hspan ih =>
    rw [Pattern.scan_tag Pattern.anchored_span hspan] at h ⊢
    rw [resolveText, Pattern.replace_tag Pattern.anchored_span _ hspan, ← resolveText]
    obtain ⟨braces, inner, -, rfl, -, hn, hfirst⟩ := Pattern.span_eq_some_iff.1 hspan
    obtain ⟨hline, hkeeps, hrest⟩ := h
    obtain ⟨hn', hfirst'⟩ := resolveFrom_inner hc hne hn hfirst hline
      (hkeeps braces (Text.startsWith_iff.2 ⟨inner ++ stop braces, by simp [enclose]⟩))
    have hscan := Pattern.scan_tag Pattern.anchored_span
      (Pattern.span_eq_some_iff.2 ⟨braces, _, it.resolveText rest, rfl, rfl, hn', hfirst'⟩)
    rw [← resolveTag_enclose] at hscan
    rw [hscan, ih hrest]
    rfl

end Collection

end Iteration

end Stencil
