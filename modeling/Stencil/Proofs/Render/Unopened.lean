import Stencil.Proofs.Expansion.Stability
import Stencil.Proofs.Nesting.Page
import Stencil.Proofs.Scope.Element
import Stencil.Proofs.Tag.Splitting

/-!
# Templates that open nothing

A template in which nothing opens a body, names a parent or includes another template has one layer,
and its lines are handled on their own. So its render comes to a page, whatever the data
(`render_unopened`). That nothing is opened on a line of a source carries over to the lines of the
layer, which are stretches of it (`opened_segment`).
-/

namespace Stencil

theorem Pattern.isSome_keyword_append {kw t : Text} (hkw : IsKeyword kw)
    (h : (Pattern.keyword kw t).isSome) (r : Text) : (Pattern.keyword kw (t ++ r)).isSome := by
  obtain ⟨b, i, x, r', rfl, hb, hne, hi, hx⟩ := (isSome_keyword_iff hkw).1 h
  exact (isSome_keyword_iff hkw).2 ⟨b, i, x, r' ++ r, by simp, hb, hne, hi, hx⟩

/-- A tag with a keyword that occurs in a stretch of a text occurs in the text. -/
theorem Directive.occursIn_of_infix {d : Directive} (hd : d ≠ .interpolation) {s t : Text}
    (h : s <:+: t) (ho : d.occursIn s = true) : d.occursIn t = true := by
  obtain ⟨kw, hkw, hp⟩ := Directive.exists_keyword hd
  obtain ⟨u, v, rfl⟩ := h
  have hanchored := Pattern.anchored_directive d
  obtain ⟨a, b, rfl, hb⟩ := (Pattern.occursIn_iff hanchored).1 ho
  rw [hp] at hb
  refine (Pattern.occursIn_iff hanchored).2 ⟨u ++ a, b ++ v, by simp, ?_⟩
  rw [hp]
  exact Pattern.isSome_keyword_append hkw hb v

/-- The segments of a line are stretches of it. -/
theorem infix_of_mem_splitStructural {line s : Text} (h : s ∈ splitStructural line) :
    s <:+: line := by
  obtain ⟨lead, tags, rfl, -, -, hsplit⟩ := exists_cover line
  rw [hsplit] at h
  split at h
  · exact List.mem_singleton.1 h ▸ List.infix_rfl
  · rcases List.mem_append.1 h with h | h
    · exact mem_visible h ▸ (List.prefix_append _ _).isInfix
    · obtain ⟨p, hp, hs⟩ := List.mem_flatMap.1 h
      obtain ⟨before, behind, rfl⟩ := List.append_of_mem hp
      rcases List.mem_cons.1 hs with rfl | hs
      · exact ⟨lead ++ before.flatMap fun q => q.1 ++ q.2,
          p.2 ++ behind.flatMap fun q => q.1 ++ q.2, by simp⟩
      · obtain rfl := mem_visible hs
        exact ⟨lead ++ before.flatMap (fun q => q.1 ++ q.2) ++ p.1,
          behind.flatMap fun q => q.1 ++ q.2, by simp⟩

/-- A segment opens nothing if its line opens nothing. -/
theorem opened_segment {line s : Text} (h : opened line = []) (hs : s ∈ splitStructural line) :
    opened s = [] := by
  refine List.eq_nil_iff_forall_not_mem.2 fun d hd => ?_
  obtain ⟨hmem, ho⟩ := List.mem_filter.1 hd
  have hne : d ≠ .interpolation := by
    rintro rfl
    simp at hmem
  have hline : d ∈ opened line := List.mem_filter.2
    ⟨hmem, Directive.occursIn_of_infix hne (infix_of_mem_splitStructural hs) ho⟩
  rw [h] at hline
  cases hline

theorem text_mem_splitStructural {source : Text} {line : Line}
    (h : line ∈ Layer.linesOfSource source) : line.text ∈ splitStructural source := by
  unfold Layer.linesOfSource at h
  cases hs : splitStructural source with
  | nil => rw [hs] at h; cases h
  | cons first rest =>
    rw [hs] at h
    rcases List.mem_cons.1 h with rfl | h
    · exact List.mem_cons_self
    · obtain ⟨t, ht, rfl⟩ := List.mem_map.1 h
      exact List.mem_cons_of_mem _ ht

namespace Engine

variable {engine : Engine} {context : Context}

/-- **A template that opens nothing** comes to a page, which is that of its lines, each with its
links and values put in. -/
theorem render_unopened {name : Text} {source : List Text}
    (hl : engine.loadLines name [] = .ok source) (h : ∀ line ∈ source, opened line = []) :
    engine.render name context =
      .ok (((mainOnly ((Layer.ofSource .main source).lines.map (Line.rewrite engine context))).clean
        mainName).join) := by
  have hlines : ∀ line ∈ (Layer.ofSource .main source).lines,
      line.rendered = true ∨ opened line.text = [] := by
    intro line hline
    obtain ⟨t, ht, hline⟩ := List.mem_flatMap.1 hline
    exact .inr (opened_segment (h t ht) (text_mem_splitStructural hline))
  have hwalk : Render.outcome (Render.walk engine context engine.depthLimit [mainName])
      { layers := mainOnly (Layer.ofSource .main source).lines } = _ :=
    Render.outcome_walk_unopened hlines (engine.sourceSize + 999) rfl [] (get?_mainOnly _)
  rw [render_eq_outcome, Render.outcome_load_eq, hl]
  simp only [Except.bind, loading_mainOnly]
  rw [hwalk]
  simp only [Session.write, write_mainOnly (List.length_map _)]
  rw [Render.outcome_walkParents_of_empty rfl]
  rfl

end Engine

end Stencil
