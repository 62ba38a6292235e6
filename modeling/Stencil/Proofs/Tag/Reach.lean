import Stencil.Proofs.Tag.Span

/-!
# How far a span reaches

A span reaches to the first closing delimiter of its kind on the line (`span_eq_some_iff`), and what
begins with an opening delimiter is no span if there is none (`upTo?_append_eq_none_iff`). Nothing
is asked here of what else stands in a span.
-/

namespace Stencil

namespace Tag

/-- The first character of a closing delimiter. -/
def stopHead (braces : Bool) : Char := if braces then '}' else '%'

theorem stop_eq_cons (braces : Bool) : stop braces = [stopHead braces, '}'] := by
  cases braces <;> rfl

theorem stopHead_ne_newline (braces : Bool) : stopHead braces ≠ '\n' := by cases braces <;> decide

theorem isPathPart_stopHead (braces : Bool) : isPathPart (stopHead braces) = false := by
  cases braces <;> decide

/-- A closing delimiter begins a text by its first two characters. -/
theorem startsWith_stop_iff {braces : Bool} {c : Char} {t : Text} :
    Text.startsWith (stop braces) (c :: t) = true ↔ c = stopHead braces ∧ t.head? = some '}' := by
  rw [Text.startsWith_iff, stop_eq_cons]
  constructor
  · rintro ⟨rest, h⟩
    obtain ⟨rfl, rfl⟩ := List.cons.inj h
    exact ⟨rfl, rfl⟩
  · rintro ⟨rfl, h⟩
    obtain ⟨t, rfl⟩ := List.head?_eq_some_iff.1 h
    exact ⟨t, rfl⟩

theorem stop_infix_cons {braces : Bool} {c : Char} {t : Text} :
    stop braces <:+: c :: t ↔
      (c = stopHead braces ∧ t.head? = some '}') ∨ stop braces <:+: t := by
  rw [List.infix_cons_iff, ← startsWith_stop_iff, Text.startsWith_iff]
  exact or_congr_left ⟨fun ⟨r, hr⟩ => ⟨r, hr.symm⟩, fun ⟨r, hr⟩ => ⟨r, hr.symm⟩⟩

theorem not_stop_infix_singleton (braces : Bool) (c : Char) : ¬ stop braces <:+: [c] := by
  intro h
  have := h.length_le
  rw [stop_eq_cons] at this
  simp at this

/-- What holds no first character of a closing delimiter can be left out of the search. -/
theorem stop_infix_append_of_not_mem {braces : Bool} {s t : Text} (h : stopHead braces ∉ s) :
    stop braces <:+: s ++ t ↔ stop braces <:+: t := by
  induction s with
  | nil => rfl
  | cons c s ih =>
    have hc : c ≠ stopHead braces := fun e => h (by simp [e])
    rw [List.cons_append, stop_infix_cons, ih fun hm => h (List.mem_cons_of_mem c hm)]
    exact or_iff_right fun hm => hc hm.1

/-- A closing delimiter stands in the part up to a character or in the part from it on. -/
theorem stop_infix_append_cons {braces : Bool} {s t : Text} {c : Char} :
    stop braces <:+: s ++ c :: t ↔ stop braces <:+: s ++ [c] ∨ stop braces <:+: c :: t := by
  induction s with
  | nil => exact (or_iff_right (not_stop_infix_singleton braces c)).symm
  | cons d s ih =>
    have hhead : (s ++ c :: t).head? = (s ++ [c]).head? := by cases s <;> rfl
    rw [List.cons_append, List.cons_append, stop_infix_cons, stop_infix_cons, hhead, ih, or_assoc]

theorem upTo?_stop_cons {braces : Bool} {c : Char} {t : Text}
    (h : ¬ (c = stopHead braces ∧ t.head? = some '}')) (hc : c ≠ '\n') :
    upTo? (stop braces) (c :: t) = (upTo? (stop braces) t).map (c :: ·) := by
  rw [upTo?, if_neg (by rwa [startsWith_stop_iff]), if_neg hc]

theorem upTo?_stop_cons_eq_none_iff {braces : Bool} {c : Char} {t : Text} (hc : c ≠ '\n') :
    upTo? (stop braces) (c :: t) = none ↔
      ¬ (c = stopHead braces ∧ t.head? = some '}') ∧ upTo? (stop braces) t = none := by
  by_cases h : c = stopHead braces ∧ t.head? = some '}'
  · rw [upTo?, if_pos (startsWith_stop_iff.2 h)]
    simp [h]
  · rw [upTo?_stop_cons h hc, Option.map_eq_none_iff]
    exact (and_iff_right h).symm

/-- A line end stops the search. -/
theorem upTo?_stop_newline (braces : Bool) (t : Text) : upTo? (stop braces) ('\n' :: t) = none := by
  have hs : ¬ Text.startsWith (stop braces) ('\n' :: t) = true := by
    rw [startsWith_stop_iff]
    exact fun h => stopHead_ne_newline braces h.1.symm
  rw [upTo?, if_neg hs, if_pos rfl]

/-- There is no closing delimiter on the line if there is none in its parts, nor one where they
meet. -/
theorem upTo?_append_eq_none_iff {braces : Bool} {s t : Text} (hs : '\n' ∉ s) :
    upTo? (stop braces) (s ++ t) = none ↔
      ¬ stop braces <:+: s ++ t.head?.toList ∧ upTo? (stop braces) t = none := by
  induction s with
  | nil =>
    have hshort : ¬ stop braces <:+: t.head?.toList := by
      intro h
      have := h.length_le
      rw [stop_eq_cons] at this
      cases ht : t.head? <;> simp [ht] at this
    simp [hshort]
  | cons c s ih =>
    have hc : c ≠ '\n' := fun e => hs (by simp [e])
    have hhead : (s ++ t).head? = (s ++ t.head?.toList).head? := by
      cases s with
      | nil => cases t <;> rfl
      | cons d s => rfl
    rw [List.cons_append, List.cons_append, stop_infix_cons, ← hhead,
      upTo?_stop_cons_eq_none_iff hc, ih fun e => hs (by simp [e]), not_or, and_assoc]

/-- The search ends at a closing delimiter if none stands before it on the line. -/
theorem upTo?_stop_of_first {braces : Bool} {inner : Text} (hn : '\n' ∉ inner)
    (hfirst : ¬ stop braces <:+: inner ++ [stopHead braces]) (rest : Text) :
    upTo? (stop braces) (inner ++ (stop braces ++ rest)) = some (inner ++ stop braces) := by
  induction inner with
  | nil =>
    have hstop : Text.startsWith (stop braces) (stop braces ++ rest) = true :=
      Text.startsWith_iff.2 ⟨rest, rfl⟩
    rw [List.nil_append, stop_eq_cons, List.cons_append, upTo?, ← List.cons_append, ← stop_eq_cons,
      if_pos hstop]
    rfl
  | cons c inner ih =>
    have hc : c ≠ '\n' := fun e => hn (by simp [e])
    have hhead : (inner ++ (stop braces ++ rest)).head? = (inner ++ [stopHead braces]).head? := by
      rw [stop_eq_cons]
      cases inner <;> rfl
    rw [List.cons_append, stop_infix_cons, ← hhead, not_or] at hfirst
    rw [List.cons_append, upTo?_stop_cons hfirst.1 hc, ih (fun h => hn (by simp [h])) hfirst.2]
    rfl

theorem exists_of_upTo?_stop {braces : Bool} {t x : Text} (h : upTo? (stop braces) t = some x) :
    ∃ inner rest, x = inner ++ stop braces ∧ t = x ++ rest ∧ '\n' ∉ inner ∧
      ¬ stop braces <:+: inner ++ [stopHead braces] := by
  induction t generalizing x with
  | nil => cases h
  | cons c t ih =>
    by_cases hstop : c = stopHead braces ∧ t.head? = some '}'
    · rw [upTo?, if_pos (startsWith_stop_iff.2 hstop)] at h
      obtain rfl := Option.some.inj h
      obtain ⟨rfl, ht⟩ := hstop
      obtain ⟨t, rfl⟩ := List.head?_eq_some_iff.1 ht
      exact ⟨[], t, rfl, by rw [stop_eq_cons]; rfl, by simp, not_stop_infix_singleton braces _⟩
    by_cases hc : c = '\n'
    · rw [hc, upTo?_stop_newline] at h
      cases h
    rw [upTo?_stop_cons hstop hc] at h
    obtain ⟨y, hy, rfl⟩ := Option.map_eq_some_iff.1 h
    obtain ⟨inner, rest, rfl, rfl, hn, hfirst⟩ := ih hy
    have hhead : (inner ++ stop braces ++ rest).head? = (inner ++ [stopHead braces]).head? := by
      rw [stop_eq_cons]
      cases inner <;> rfl
    refine ⟨c :: inner, rest, rfl, rfl, by simp [Ne.symm hc, hn], ?_⟩
    rw [List.cons_append, stop_infix_cons, ← hhead]
    exact not_or.2 ⟨hstop, hfirst⟩

/-- **The first closing delimiter** on a line. -/
theorem upTo?_stop_eq_some_iff {braces : Bool} {t x : Text} :
    upTo? (stop braces) t = some x ↔
      ∃ inner rest, x = inner ++ stop braces ∧ t = x ++ rest ∧ '\n' ∉ inner ∧
        ¬ stop braces <:+: inner ++ [stopHead braces] := by
  constructor
  · exact exists_of_upTo?_stop
  · rintro ⟨inner, rest, rfl, rfl, hn, hfirst⟩
    rw [List.append_assoc]
    exact upTo?_stop_of_first hn hfirst rest

/-- A text that ends with its first closing delimiter holds it nowhere else. -/
theorem eq_of_append_stop {braces : Bool} {inner x r : Text}
    (hfirst : ¬ stop braces <:+: inner ++ [stopHead braces])
    (h : inner ++ stop braces = x ++ (stop braces ++ r)) : inner = x ∧ r = [] := by
  rcases List.eq_nil_or_concat r with rfl | ⟨r, d, rfl⟩
  · rw [List.append_nil] at h
    exact ⟨List.append_cancel_right h, rfl⟩
  · have hend : inner ++ [stopHead braces] ++ ['}'] = x ++ (stop braces ++ r) ++ [d] := by
      simpa [stop_eq_cons] using h
    exact absurd ⟨x, r, by rw [(List.append_inj' hend rfl).1]; simp⟩ hfirst

end Tag

namespace Pattern

open Tag

/-- **A span** is what stands between an opening delimiter and the first closing delimiter of its
kind on the line. -/
theorem span_eq_some_iff {t : Text} {tag : Tag} :
    span t = some tag ↔
      ∃ braces inner rest, tag = ⟨enclose braces inner, []⟩ ∧ t = enclose braces inner ++ rest ∧
        '\n' ∉ inner ∧ ¬ stop braces <:+: inner ++ [stopHead braces] := by
  constructor
  · intro h
    obtain ⟨braces, r, rfl⟩ := exists_start_of_isSome_span (t := t) (by simp [h])
    rw [span_of_start] at h
    obtain ⟨x, hx, rfl⟩ := Option.map_eq_some_iff.1 h
    obtain ⟨inner, rest, rfl, rfl, hn, hfirst⟩ := upTo?_stop_eq_some_iff.1 hx
    exact ⟨braces, inner, rest, by simp [enclose], by simp [enclose], hn, hfirst⟩
  · rintro ⟨braces, inner, rest, rfl, rfl, hn, hfirst⟩
    have hx := upTo?_stop_eq_some_iff.2 ⟨inner, rest, rfl, rfl, hn, hfirst⟩
    have hsplit : enclose braces inner ++ rest =
        start braces ++ (inner ++ stop braces ++ rest) := by
      simp [enclose]
    rw [hsplit, span_of_start, hx]
    simp [enclose]

end Pattern

end Stencil
