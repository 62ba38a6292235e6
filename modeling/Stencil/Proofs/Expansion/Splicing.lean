import Stencil.Proofs.Expansion.Tags

/-!
# Splicing in the text of an element

A path that has the variable for a later segment takes in the text of the element, which may be any
text. If it is inert, resolving the tags of a text is still a rephrasing of it
(`rephrases_resolveText`), on which no tidiness is asked of the text. The stretches replaced are
paths that have the variable for a segment, so that none begins in a keyword other than the variable
(`untouched_of_ne`) or in a label of which the variable is no part (`untouched_label`); and those
put in their place are dotted, so that none begins in any keyword or label (`untouched_resolved`).
-/

namespace Stencil

open Tag

/-! ## The paths of a tag, one by one -/

/-- What is read as a path inside a word is read as part of a longer path from an earlier start, and
what follows the word is read the same. -/
theorem Tag.mem_pathsFrom_path {p t : Text} (h : p ∈ pathsFrom (.plain true) t) (reversed : Text) :
    p ∈ pathsFrom (.path reversed) t := by
  induction t generalizing reversed with
  | nil => cases h
  | cons c cs ih =>
    unfold pathsFrom at h ⊢
    split at h
    · next hq =>
      have hc : isPathPart c = false := Iteration.isPathPart_of_quote hq
      rw [if_neg (by simp [hc]), if_pos hq]
      exact List.mem_cons_of_mem _ h
    · next hq =>
      rw [if_neg (by simp)] at h
      split
      · next hc =>
        rw [hc] at h
        exact ih h _
      · next hc =>
        rw [Bool.not_eq_true] at hc
        rw [hc] at h
        exact List.mem_cons_of_mem _ h

/-- **A whole path** that stands outside quotes is one of the paths. -/
theorem Tag.mem_pathsFrom {a w q : Text} {d : Char} {joined : Bool}
    (ha : ∀ c ∈ a, (c == '"' || c == '\'') = false) (hne : w ≠ [])
    (hw : ∀ c ∈ w, isPathPart c = true) (hstart : ∀ c ∈ w.head?, isPathStart c = true)
    (hj : joinedBehind joined a = false) (hd : isPathPart d = false) :
    w ∈ pathsFrom (.plain joined) (a ++ (w ++ d :: q)) := by
  induction a generalizing joined with
  | nil =>
    obtain rfl : joined = false := hj
    obtain ⟨c, w, rfl⟩ := List.exists_cons_of_ne_nil hne
    have hw' : ∀ x ∈ w, isPathPart x = true := fun x hx => hw x (List.mem_cons_of_mem c hx)
    simp only [List.nil_append, List.cons_append, pathsFrom]
    rw [if_neg (Iteration.not_quote_of_isPathPart (hw c (by simp))),
      if_pos (by simp [hstart c rfl]), Iteration.pathsFrom_path hw' hd]
    simp
  | cons c a ih =>
    have hmem := ih (fun x hx => ha x (List.mem_cons_of_mem c hx)) hj
    simp only [List.cons_append, pathsFrom]
    rw [if_neg (by simp [ha c (by simp)])]
    split
    · next hs =>
      have hc : isPathPart c = true := isPathPart_of_isPathStart (Bool.and_eq_true_iff.1 hs).1
      rw [hc] at hmem
      exact mem_pathsFrom_path hmem _
    · exact hmem

namespace Iteration

variable (it : Iteration)

/-! ## What a path becomes -/

/-- The path takes in the text of the element. -/
def Splices (p : Text) : Prop :=
  (Context.segments p).head? ≠ some it.header.variableName ∧
    it.header.variableName ∈ Context.laterSegments p

instance : DecidablePred it.Splices := fun _ => inferInstanceAs (Decidable (_ ∧ _))

/-- The relation between a path that has the variable for a segment and what becomes of it. -/
structure Rewrites (w w' : Text) : Prop where
  parts : ∀ c ∈ w, isPathPart c = true
  start : ∀ c ∈ w.head?, isPathStart c = true
  segment : it.header.variableName ∈ Context.segments w
  resolved : w' = it.resolved w

variable {it}

theorem replaceFirst?_of_mem {name : Text} (replacement : Text) {segments : List Text}
    (h : name ∈ segments) :
    ∃ replaced, replaceFirst? name replacement segments = some replaced ∧ replaced ≠ [] ∧
      ∀ s ∈ replaced, s ∈ segments ∨ s = replacement := by
  induction segments with
  | nil => cases h
  | cons s rest ih =>
    unfold replaceFirst?
    split
    · exact ⟨_, rfl, by simp, by simp +contextual [or_comm]⟩
    · next hs =>
      obtain ⟨replaced, hr, -, hm⟩ := ih ((List.mem_cons.1 h).resolve_left (Ne.symm hs))
      refine ⟨s :: replaced, by rw [hr]; rfl, by simp, fun w hw => ?_⟩
      rcases List.mem_cons.1 hw with rfl | hw
      · simp
      · exact (hm w hw).imp (List.mem_cons_of_mem _) id

/-- A path that does not begin with the variable takes in the text of the element at the first
segment that is the variable. -/
theorem resolved_of_splices {p : Text} (h : it.Splices p) :
    ∃ first rest replaced, Text.splitOn '.' p = first :: rest ∧
      it.resolved p = first ++ '.' :: Text.join ['.'] replaced ∧
      ∀ s ∈ replaced, s ∈ rest ∨ s = it.literal := by
  obtain ⟨first, rest, hsplit⟩ := List.exists_cons_of_ne_nil (Text.splitOn_ne_nil '.' p)
  obtain ⟨hfirst, hlater⟩ := h
  simp only [Context.segments, Context.laterSegments, hsplit, List.head?_cons, ne_eq,
    Option.some.injEq, List.tail_cons] at hfirst hlater
  obtain ⟨replaced, hr, hne, hm⟩ := replaceFirst?_of_mem it.literal hlater
  refine ⟨first, rest, replaced, hsplit, ?_, hm⟩
  unfold resolved resolve?
  simp only [hsplit]
  rw [if_neg hfirst, hr, Option.map_some, Option.getD_some, Text.join_cons hne]

/-- A path that does not take in the text of the element begins with the variable, if that is one of
its segments. -/
theorem splitOn_of_not_splices {p : Text} (h : it.header.variableName ∈ Context.segments p)
    (hs : ¬ it.Splices p) : ∃ rest, Text.splitOn '.' p = it.header.variableName :: rest := by
  obtain ⟨first, rest, hsplit⟩ := List.exists_cons_of_ne_nil (Text.splitOn_ne_nil '.' p)
  simp only [Splices, Context.laterSegments, Context.segments, hsplit, List.head?_cons, ne_eq,
    Option.some.injEq, List.tail_cons, not_and] at h hs
  by_cases hv : first = it.header.variableName
  · exact ⟨rest, hv ▸ hsplit⟩
  · exact absurd ((List.mem_cons.1 h).resolve_left (Ne.symm hv)) (hs hv)

section Loop

variable (hc : ∀ c ∈ it.header.collection, isPathPart c = true)
  (hne : it.header.collection ≠ []) (hk : ∀ c ∈ it.key, isPathPart c = true)
include hc hne

/-- **A path with the variable for a segment** becomes a dotted one. -/
theorem Rewrites.exists_dot {w w' : Text} (h : it.Rewrites w w') :
    ∃ u v, w' = u ++ '.' :: v ∧ u ≠ [] ∧ ∀ c ∈ u, isPathPart c = true := by
  obtain rfl := h.resolved
  by_cases hs : it.Splices w
  · obtain ⟨first, rest, replaced, hsplit, hres, -⟩ := resolved_of_splices hs
    refine ⟨first, _, hres, ?_, fun c hm =>
      h.parts c (Text.mem_of_mem_splitOn (by rw [hsplit]; simp) hm)⟩
    rintro rfl
    rcases Text.eq_of_splitOn_cons hsplit with ⟨rfl, -⟩ | ⟨-, rfl⟩
    · simp [Splices, Context.laterSegments, Context.segments, hsplit] at hs
    · exact absurd (h.start '.' rfl) (by decide)
  · obtain ⟨rest, hsplit⟩ := splitOn_of_not_splices h.segment hs
    rcases resolved_of_head hsplit with hres | ⟨hres, -⟩
    · exact ⟨_, _, hres, hne, hc⟩
    · exact ⟨it.header.collection, it.key ++ '.' :: Text.join ['.'] rest, by simp [hres, element],
        hne, hc⟩

include hk

omit hne in
/-- What a path becomes is inert, if the text it takes in is. -/
theorem Rewrites.isInert {w w' : Text} (h : it.Rewrites w w')
    (hlit : it.Splices w → IsInert it.literal) : IsInert w' := by
  obtain rfl := h.resolved
  by_cases hs : it.Splices w
  · obtain ⟨first, rest, replaced, hsplit, hres, hm⟩ := resolved_of_splices hs
    have hpart : ∀ s ∈ first :: rest, IsInert s := fun s hs =>
      .of_isPathPart fun c hc => h.parts c (Text.mem_of_mem_splitOn (hsplit ▸ hs) hc)
    have hjoin : IsInert (Text.join ['.'] replaced) := by
      refine .join (.of_isPathPart (by decide)) fun s hs' => ?_
      rcases hm s hs' with hr | rfl
      · exact hpart s (List.mem_cons_of_mem _ hr)
      · exact hlit hs
    rw [hres]
    exact (hpart first (by simp)).append
      (IsInert.append (x := ['.']) (.of_isPathPart (by decide)) hjoin)
  · obtain ⟨rest, hsplit⟩ := splitOn_of_not_splices h.segment hs
    exact .of_isPathPart (resolved_isPathPart_of_head hc hk hsplit h.parts)

/-! ## What a text becomes -/

theorem rephrases_resolved {p : Text} (hp : ∀ c ∈ p, isPathPart c = true)
    (hstart : ∀ c ∈ p.head?, isPathStart c = true) (hpne : p ≠ [])
    (hlit : it.Splices p → IsInert it.literal) {c : Char} {t t' : Text}
    (hcp : isPathPart c = false) (ht : ∀ joined, Rephrases it.Rewrites joined (c :: t) (c :: t')) :
    Rephrases it.Rewrites false (p ++ c :: t) (it.resolved p ++ c :: t') := by
  by_cases hv : it.header.variableName ∈ Context.segments p
  · have hrw : it.Rewrites p (it.resolved p) := ⟨hp, hstart, hv, rfl⟩
    obtain ⟨u, v, hres, hu, hup⟩ := hrw.exists_dot hc hne
    have hinert := hrw.isInert hc hk hlit
    obtain ⟨d, q, rfl⟩ := List.exists_cons_of_ne_nil hpne
    obtain ⟨e, u, rfl⟩ := List.exists_cons_of_ne_nil hu
    refine .stretch hrw (.of_head (hp d (by simp)) (.of_isPathPart hp) hcp) ?_ (ht false)
    rw [hres] at hinert ⊢
    exact .of_head (hup e (by simp)) hinert hcp
  · rw [resolved_eq_self hv]
    exact (Rephrases.refl _ _ p).append ht

/-- **Resolving the tags of a text** replaces paths that have the variable for a segment. -/
theorem rephrases_resolveText {t : Text}
    (hlit : ∀ tag ∈ Pattern.span.tags t, ∀ p ∈ tag.paths, it.Splices p → IsInert it.literal)
    (joined : Bool) : Rephrases it.Rewrites joined t (it.resolveText t) := by
  induction t using Pattern.scan_induction Pattern.anchored_span generalizing joined with
  | nil => exact .nil
  | char c cs h ih =>
    rw [Pattern.tags_char h] at hlit
    rw [resolveText_char h]
    exact .char (ih hlit _)
  | tag tag rest h ih =>
    rw [Pattern.tags_tag Pattern.anchored_span _ h] at hlit
    rw [resolveText, Pattern.replace_tag Pattern.anchored_span _ h]
    refine Rephrases.append ?_ fun joined => ih (fun tag htag => hlit tag (by simp [htag])) joined
    have hends : EndsOutside tag.source := endsOutside_of_mem_tags (t := tag.source ++ rest)
      (by simp [Pattern.tags_tag Pattern.anchored_span _ h])
    have hpaths := hlit tag (by simp)
    obtain ⟨braces, inner, -, rfl, -⟩ := Pattern.exists_of_span_eq_some h
    obtain ⟨d, hd, -⟩ := start_eq braces
    have hsource : enclose braces inner = '{' :: (d :: (inner ++ stop braces)) := by
      simp [enclose, hd]
    simp only [Tag.paths, resolveTag, hsource] at hpaths hends ⊢
    rw [← pathsFrom_plain_eq (by decide) joined] at hpaths
    rw [← resolveFrom_plain_eq (by decide) joined]
    exact (resolveFrom_induction (R := fun _ => Rephrases it.Rewrites) (fun _ _ _ => .nil)
      (fun _ _ _ _ _ _ ht => .char ht)
      (fun _ _ _ _ hpne hp hs hcp hl ht => rephrases_resolved hc hne hk hp hs hpne hl hcp ht)
      _).1 joined hends hpaths

end Loop

/-! ## Keywords and labels -/

/-- No path that is replaced begins in a keyword other than the variable. -/
theorem untouched_of_ne {kw : Text} (hkw : IsKeyword kw) (h : it.header.variableName ≠ kw) :
    Rephrases.Untouched it.Rewrites kw := by
  refine .of_isKeyword hkw fun w w' hw => ⟨hw.parts, ?_⟩
  rintro rfl
  have hseg := hw.segment
  rw [Context.segments, Text.splitOn_of_not_mem (dot_not_mem_keyword hkw)] at hseg
  exact h (List.mem_singleton.1 hseg)

/-- No dotted path begins in a text without dots. -/
theorem untouched_resolved (hc : ∀ c ∈ it.header.collection, isPathPart c = true)
    (hne : it.header.collection ≠ []) {s : Text} (hs : '.' ∉ s) :
    Rephrases.Untouched (fun x x' => it.Rewrites x' x) s :=
  .of_dot hs fun _ _ h =>
    let ⟨u, v, he, _, hu⟩ := h.exists_dot hc hne
    ⟨u, v, he, hu⟩

/-- No path that is replaced begins in a part of a tag that has no dots, if the variable is none of
the paths of the tag. -/
theorem untouched_label (pre : Text) {s : Text} (post : Text) {d : Char} (hs : '.' ∉ s)
    (hquote : ∀ c ∈ pre ++ s, (c == '"' || c == '\'') = false)
    (hpre : joinedBehind false pre = false) (hd : isPathPart d = false)
    (h : it.header.variableName ∉ Tag.pathsFrom (.plain false) (pre ++ (s ++ d :: post))) :
    Rephrases.Untouched it.Rewrites s := by
  intro a y u w w' v he hy hu hv hw hst
  obtain ⟨hj, q, rfl, hq⟩ := hst.exists_word hw.parts hw.start hu hv
  have hseg := hw.segment
  rw [Context.segments, Text.splitOn_of_not_mem (fun hm => hs (by simp [he, hm]))] at hseg
  obtain rfl := List.mem_singleton.1 hseg
  obtain ⟨e, r, hr, hep⟩ : ∃ e r, q ++ d :: post = e :: r ∧ isPathPart e = false := by
    cases q with
    | nil => exact ⟨d, post, rfl, hd⟩
    | cons e q => exact ⟨e, q ++ d :: post, rfl, hq e rfl⟩
  refine h ?_
  have hmem : it.header.variableName ∈ Tag.pathsFrom (.plain false)
      (pre ++ a ++ (it.header.variableName ++ e :: r)) := by
    refine Tag.mem_pathsFrom (fun c hc => hquote c ?_) hst.ne_nil hw.parts hw.start ?_ hep
    · rw [he, ← List.append_assoc]
      exact List.mem_append_left _ hc
    · rw [joinedBehind_append, hpre, hj]
  rw [← hr] at hmem
  simpa [he] using hmem

end Iteration

end Stencil
