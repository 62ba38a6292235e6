import Stencil.Proofs.Expansion.Resolution
import Stencil.Proofs.Tag.Span

/-!
# Resolving the tags of a text

An iteration resolves the tags of a text one by one. In a tidy text this keeps every tag where it
is (`tags_resolveText`), leaves the text tidy, and is a renaming of words (`renames_resolveText`),
so that the lemmas on renamed texts apply to whole lines.
-/

namespace Stencil

open Tag

namespace Renames

variable {Q : Text → Text → Prop} {joined : Bool} {t t' : Text}

theorem eq_nil (h : Renames Q joined [] t') : t' = [] := by
  generalize hx : ([] : Text) = x at h
  cases h with
  | nil => rfl
  | char => cases hx
  | word => simp at hx

/-- **A tag stays a tag**, and it stays tidy. -/
theorem enclose {braces : Bool} {inner : Text} (hd : ∀ c ∈ inner, isDelimiterPart c = false)
    (h : Renames Q false (enclose braces inner) t') :
    ∃ inner', t' = Tag.enclose braces inner' ∧ (∀ c ∈ inner', isDelimiterPart c = false) ∧
      Renames Q false (inner ++ stop braces) (inner' ++ stop braces) := by
  have hstart := start_not_isPathPart braces
  have hstop := stop_not_isPathPart braces
  have hsplit : Tag.enclose braces inner = start braces ++ (inner ++ stop braces) := by
    simp [Tag.enclose]
  rw [hsplit] at h
  obtain ⟨v, rfl, hv⟩ := append_of_not_isPathPart hstart h.symm
  rw [← List.append_nil (inner ++ stop braces)] at hv
  obtain ⟨inner', u, rfl, -, -, hu⟩ := infix_of_not_isPathPart (stop_ne_nil braces) hstop hv
  obtain rfl := hu.symm.eq_nil
  have hback : Renames Q false (inner ++ stop braces) (inner' ++ stop braces) := by
    simpa using hv.symm
  refine ⟨inner', by simp [Tag.enclose], ?_, hback⟩
  intro c hc
  cases hdc : isDelimiterPart c with
  | false => rfl
  | true =>
    -- the character would stand in the final delimiter, with all of this delimiter behind it
    have hpart : isPathPart c = false := by
      cases hp : isPathPart c with
      | false => rfl
      | true => exact absurd (not_isDelimiterPart_of_isPathPart hp) (by simp [hdc])
    obtain ⟨p, q, rfl⟩ := List.append_of_mem hc
    obtain ⟨a, u, hau, -, -, hu⟩ := infix_of_not_isPathPart (s := [c]) (by simp)
      (by simpa using hpart) (by simpa using hback)
    have hu' : Renames Q false u (q ++ stop braces ++ []) := by simpa using hu
    obtain ⟨b, w, rfl, -⟩ := infix_of_not_isPathPart (stop_ne_nil braces) hstop hu'
    have hmem : c ∈ inner := by
      rcases List.append_eq_append_iff.1 hau with ⟨x, ha, hx⟩ | ⟨x, ha, hx⟩
      · have hlen := congrArg List.length hx
        simp only [List.length_append] at hlen
        have hnil : x = [] := List.length_eq_zero_iff.1 (by omega)
        rw [hnil, List.append_nil] at ha
        rw [← ha]
        simp
      · rw [ha]
        simp
    exact absurd (hd c hmem) (by simp [hdc])

end Renames

theorem endsOutside_enclose (braces : Bool) (inner : Text) :
    Iteration.EndsOutside (enclose braces inner) := by
  intro c hc
  obtain ⟨d, hd, -⟩ := stop_eq braces
  have hlast : (enclose braces inner).getLast? = some '}' := by simp [enclose, hd]
  rw [hlast] at hc
  obtain rfl := Option.some.inj hc
  decide

theorem endsOutside_of_mem_tags {tag : Tag} {t : Text} (h : tag ∈ Pattern.span.tags t) :
    Iteration.EndsOutside tag.source := by
  obtain ⟨-, b, -, hb⟩ := Pattern.exists_of_mem_tags Pattern.anchored_span h
  obtain ⟨braces, inner, -, rfl, -⟩ := Pattern.exists_of_span_eq_some hb
  exact endsOutside_enclose braces inner

namespace Iteration

variable {it : Iteration}

theorem separates_start (braces : Bool) : ∀ c ∈ start braces, Separates c := by
  unfold Separates
  cases braces <;> decide

theorem separates_stop (braces : Bool) : ∀ c ∈ stop braces, Separates c := by
  unfold Separates
  cases braces <;> decide

theorem resolveText_char {c : Char} {cs : Text} (h : Pattern.span (c :: cs) = none) :
    it.resolveText (c :: cs) = c :: it.resolveText cs :=
  Pattern.replace_char h

theorem resolveText_enclose {braces : Bool} {inner : Text}
    (hd : ∀ c ∈ inner, isDelimiterPart c = false) (hn : '\n' ∉ inner) (rest : Text) :
    it.resolveText (enclose braces inner ++ rest) =
      it.resolveTag (enclose braces inner) ++ it.resolveText rest :=
  Pattern.replace_tag Pattern.anchored_span ⟨enclose braces inner, []⟩
    (Pattern.span_enclose braces hd hn rest)

/-- **A text stays** if the variable is no segment of a path. -/
theorem resolveText_eq_self {t : Text}
    (h : ∀ tag ∈ Pattern.span.tags t, ∀ p ∈ tag.paths,
      it.header.variableName ∉ Context.segments p) : it.resolveText t = t :=
  Pattern.replace_eq_self Pattern.anchored_span fun tag htag => resolveTag_eq_self (h tag htag)

/-- No path of the text has the variable for a later segment. -/
def Spares (it : Iteration) (t : Text) : Prop :=
  ∀ tag ∈ Pattern.span.tags t, ∀ p ∈ tag.paths,
    it.header.variableName ∉ Context.laterSegments p

theorem span_resolveText_char {c : Char} {cs : Text} (h : Pattern.span (c :: cs) = none)
    (hn : '\n' ∉ c :: cs) (hr : Renames (Resolves it) (isPathPart c) cs (it.resolveText cs)) :
    Pattern.span (c :: it.resolveText cs) = none := by
  have hn' : '\n' ∉ c :: it.resolveText cs :=
    (show Renames (Resolves it) false _ _ from .char hr).newline_not_mem hn
  rw [← Option.not_isSome_iff_eq_none] at h ⊢
  intro hs
  refine h ((Pattern.isSome_span_iff hn).2 ?_)
  obtain ⟨braces, r', ht, hinfix⟩ := (Pattern.isSome_span_iff hn').1 hs
  obtain ⟨d, hd, hd'⟩ := start_eq braces
  rw [hd] at ht
  obtain ⟨rfl, hcs⟩ : c = '{' ∧ it.resolveText cs = d :: r' := by simpa using ht
  have hpart : isPathPart d = false := by rcases hd' with rfl | rfl <;> decide
  rw [hcs] at hr
  obtain ⟨r, rfl, hr'⟩ := hr.cons_of_not_isPathPart hpart
  refine ⟨braces, r, by simp [hd], ?_⟩
  exact (hr'.infix_iff (stop_ne_nil braces) (stop_not_isPathPart braces)).1 hinfix

variable (hit : it.IsProper)
include hit

/-- **What an iteration makes of a tidy text.** -/
theorem resolveText_spec {t : Text} (hn : '\n' ∉ t) (ht : Text.isTidy t = true)
    (h : it.Spares t) :
    (∀ joined, Renames (Resolves it) joined t (it.resolveText t)) ∧
      Pattern.span.tags (it.resolveText t) =
        (Pattern.span.tags t).map (fun tag => ⟨it.resolveTag tag.source, []⟩) ∧
      Text.isTidy (it.resolveText t) = true := by
  refine Text.tidy_induction (motive := fun t => it.Spares t →
    (∀ joined, Renames (Resolves it) joined t (it.resolveText t)) ∧
      Pattern.span.tags (it.resolveText t) =
        (Pattern.span.tags t).map (fun tag => ⟨it.resolveTag tag.source, []⟩) ∧
      Text.isTidy (it.resolveText t) = true) ?_ ?_ ?_ t hn ht h
  · intro _
    exact ⟨fun _ => .nil, rfl, rfl⟩
  · intro c cs hnone hn _ ih h
    rw [Spares, Pattern.tags_char hnone] at h
    obtain ⟨hr, htags, htidy⟩ := ih h
    have hnone' := span_resolveText_char hnone hn (hr _)
    rw [resolveText_char hnone, Pattern.tags_char hnone', Pattern.tags_char hnone,
      Text.isTidy_char hnone']
    exact ⟨fun _ => .char (hr _), htags, htidy⟩
  · intro braces inner rest hd hn hnr _ ih h
    rw [Spares, Text.tags_enclose hd hn] at h
    obtain ⟨hr, htags, htidy⟩ := ih fun tag htag => h tag (List.mem_cons_of_mem _ htag)
    have htag := renames_resolveTag hit ⟨enclose braces inner, []⟩
      (endsOutside_enclose braces inner) (h _ (by simp))
    obtain ⟨inner', heq, hd', hinner⟩ := htag.enclose hd
    have hn' : '\n' ∉ inner' := by
      intro e
      have hm := htag.newline_not_mem (by cases braces <;> simp [enclose, start, stop, hn,
        opening, openingBraces, closing, closingBraces])
      exact hm (by rw [heq]; simp [enclose, e])
    rw [resolveText_enclose hd hn, Text.tags_enclose hd hn, List.map_cons]
    refine ⟨fun joined => ?_, ?_, ?_⟩
    · have happ := htag.append hr
      obtain ⟨d, hs, -⟩ := start_eq braces
      have hcons : enclose braces inner ++ rest = '{' :: (d :: inner ++ stop braces ++ rest) := by
        simp [enclose, hs]
      rw [hcons] at happ ⊢
      exact happ.of_false (by decide) joined
    · simp only [heq]
      rw [Text.tags_enclose hd' hn', htags]
    · simp only [heq]
      rw [Text.isTidy_enclose_append hd' hn', htidy]

/-- **The paths of the new text** are resolved paths of the text. -/
theorem exists_of_mem_paths_resolveText {t : Text} (hn : '\n' ∉ t) (ht : Text.isTidy t = true)
    (h : it.Spares t) {tag' : Tag} (htag' : tag' ∈ Pattern.span.tags (it.resolveText t)) {p' : Text}
    (hp' : p' ∈ tag'.paths) :
    ∃ tag ∈ Pattern.span.tags t, ∃ p ∈ tag.paths, p' = it.resolved p := by
  rw [(resolveText_spec hit hn ht h).2.1] at htag'
  obtain ⟨tag, htag, rfl⟩ := List.mem_map.1 htag'
  have hends : EndsOutside tag.source := endsOutside_of_mem_tags htag
  obtain ⟨p, hp, rfl⟩ := exists_of_mem_paths_resolveTag hit hends (h tag htag) p' hp'
  exact ⟨tag, htag, p, hp, rfl⟩

omit hit

/-- A text that the iteration changes in words only. -/
structure Fits (it : Iteration) (t : Text) : Prop where
  proper : it.IsProper
  no_newline : '\n' ∉ t
  tidy : Text.isTidy t = true
  spares : it.Spares t

namespace Fits

variable {t : Text} (h : it.Fits t)
include h

theorem renames : Renames (Resolves it) false t (it.resolveText t) :=
  (resolveText_spec h.proper h.no_newline h.tidy h.spares).1 false

theorem newline_not_mem : '\n' ∉ it.resolveText t := h.renames.newline_not_mem h.no_newline

theorem tidy_resolveText : Text.isTidy (it.resolveText t) = true :=
  (resolveText_spec h.proper h.no_newline h.tidy h.spares).2.2

end Fits

end Iteration

end Stencil
