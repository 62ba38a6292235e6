import Stencil.Proofs.Engine.Source
import Stencil.Proofs.Nesting.Extent
import Stencil.Proofs.Tag.Structural

/-!
# Cutting a line at its structural tags

A line is some text and then its structural tags, each with the text up to the next. Its segments are
all of these in order, but for the texts that are blank; a line without a structural tag is one
segment. No segment has a tag that another one shares: each is a tag itself or holds none, so that it
is not cut any further and only the tags open and close bodies (`splits_splitStructural`).
-/

namespace Stencil

/-- Whether the text is a structural tag and nothing else. -/
def IsStructural (t : Text) : Prop := Pattern.structural t = some ⟨t, []⟩

instance (t : Text) : Decidable (IsStructural t) := inferInstanceAs (Decidable (_ = _))

/-- **The segments of a line.** -/
structure Splits (line : Text) (segments : List Text) : Prop where
  /-- There is at least one. -/
  nonempty : segments ≠ []
  /-- They are the structural tags and the texts around them, without the blank ones. A line
  without a tag is one segment, blank or not. -/
  covers : ∃ (lead : Text) (tags : List (Text × Text)),
    line = lead ++ tags.flatMap (fun p => p.1 ++ p.2) ∧
    Pattern.structural.occursIn lead = false ∧
    (∀ p ∈ tags, IsStructural p.1 ∧ Pattern.structural.occursIn p.2 = false) ∧
    segments =
      if tags.isEmpty then [line] else visible lead ++ tags.flatMap fun p => p.1 :: visible p.2
  /-- Each is one structural tag or holds none. -/
  isolated : ∀ s ∈ segments, IsStructural s ∨ Pattern.structural.occursIn s = false
  /-- None of them is cut any further. -/
  stable : ∀ s ∈ segments, splitStructural s = [s]
  /-- What opens or closes a body is a structural tag. -/
  marked : ∀ s ∈ segments, ∀ d : Directive, d.closing?.isSome = true →
    d.occursIn s = true ∨ d.closesIn s = true → IsStructural s
  /-- No other segment changes how many bodies are open, for a capture or in the search for the end
  of a slot. -/
  level : ∀ line : Line, line.text ∈ segments → ¬IsStructural line.text →
    (∀ capture : Capture, capture.depthAfter line = capture.depth) ∧
    ∀ depth rest, Layer.closingFrom? depth (line :: rest) =
      (Layer.closingFrom? depth rest).map (· + 1)

namespace Pattern

theorem isStructural_of_structural {t : Text} {tag : Tag} (h : structural t = some tag) :
    IsStructural tag.source := by
  have hself := structural_append h []
  rw [List.append_nil] at hself
  obtain ⟨b, word, tail, -, rfl, -⟩ := structural_eq_some_iff.1 h
  exact hself

/-- Neither the text before the first structural tag holds one, nor the text behind any. -/
theorem isolated_cut (t : Text) :
    structural.occursIn (cut (scan structural t)).1 = false ∧
      ∀ p ∈ (cut (scan structural t)).2,
        IsStructural p.1.source ∧ structural.occursIn p.2 = false := by
  induction t using scan_induction anchored_structural with
  | nil => exact ⟨rfl, by simp [cut]⟩
  | char c cs h ih =>
    rw [scan_char h, cut]
    refine ⟨?_, ih.2⟩
    have hsource := cut_source (scan structural cs)
    rw [flatMap_source_scan anchored_structural] at hsource
    -- a tag at the start of the stretch would be one at the start of the whole text
    have hnone : structural (c :: (cut (scan structural cs)).1) = none := by
      cases hs : structural (c :: (cut (scan structural cs)).1) with
      | none => rfl
      | some tag =>
        obtain ⟨-, rest, hrest⟩ := anchored_structural hs
        have hwhole : c :: cs = tag.source ++ (rest ++
            (cut (scan structural cs)).2.flatMap fun p => p.1.source ++ p.2) := by
          rw [← List.append_assoc, ← hrest, List.cons_append, hsource]
        rw [hwhole, structural_append hs] at h
        cases h
    rw [occursIn_char hnone, ih.1]
  | tag tag rest h ih =>
    rw [scan_tag anchored_structural h, cut]
    refine ⟨rfl, List.forall_mem_cons.2 ⟨⟨isStructural_of_structural h, ih.1⟩, ih.2⟩⟩

end Pattern

open Pattern

variable {t line : Text}

theorem splitStructural_of_isStructural (h : IsStructural t) : splitStructural t = [t] := by
  have htag : structural ((⟨t, []⟩ : Tag).source ++ []) = some ⟨t, []⟩ := by
    rw [List.append_nil]
    exact h
  have hscan := scan_tag anchored_structural htag
  rw [List.append_nil] at hscan
  rw [splitStructural, hscan]
  rfl

theorem mem_visible {s : Text} (h : s ∈ visible t) : s = t := by
  unfold visible at h
  split at h
  · cases h
  · exact List.mem_singleton.1 h

/-- The segments of a line are its structural tags and the texts around them. -/
theorem exists_cover (line : Text) : ∃ (lead : Text) (tags : List (Text × Text)),
    line = lead ++ tags.flatMap (fun p => p.1 ++ p.2) ∧
    structural.occursIn lead = false ∧
    (∀ p ∈ tags, IsStructural p.1 ∧ structural.occursIn p.2 = false) ∧
    splitStructural line =
      if tags.isEmpty then [line] else visible lead ++ tags.flatMap fun p => p.1 :: visible p.2 := by
  obtain ⟨hlead, htags⟩ := isolated_cut line
  have hsource := cut_source (scan structural line)
  rw [flatMap_source_scan anchored_structural] at hsource
  rw [splitStructural]
  generalize cut (scan structural line) = pieces at hlead htags hsource
  obtain ⟨lead, tags⟩ := pieces
  refine ⟨lead, tags.map fun p => (p.1.source, p.2), ?_, hlead, ?_, ?_⟩
  · rw [← hsource, List.flatMap_map]
  · intro p hp
    obtain ⟨q, hq, rfl⟩ := List.mem_map.1 hp
    exact htags q hq
  · cases tags with
    | nil => rfl
    | cons p tags => simp [List.flatMap_map]

theorem isolated_splitStructural {s : Text} (h : s ∈ splitStructural line) :
    IsStructural s ∨ structural.occursIn s = false := by
  obtain ⟨lead, tags, rfl, hlead, htags, hsplit⟩ := exists_cover line
  rw [hsplit] at h
  split at h
  · next hnil =>
    rw [List.mem_singleton.1 h, List.isEmpty_iff.1 hnil, List.flatMap_nil, List.append_nil]
    exact .inr hlead
  · rcases List.mem_append.1 h with h | h
    · exact .inr (mem_visible h ▸ hlead)
    · obtain ⟨p, hp, h⟩ := List.mem_flatMap.1 h
      rcases List.mem_cons.1 h with rfl | h
      · exact .inl (htags p hp).1
      · exact .inr (mem_visible h ▸ (htags p hp).2)

theorem splitStructural_ne_nil (line : Text) : splitStructural line ≠ [] := by
  obtain ⟨lead, tags, -, -, -, hsplit⟩ := exists_cover line
  rw [hsplit]
  cases tags <;> simp

/-- The segments of a line hold no line end if the line holds none. -/
theorem newline_not_mem_segment (hn : '\n' ∉ line) {s : Text} (h : s ∈ splitStructural line) :
    '\n' ∉ s := fun hm =>
  hn ((flatten_splitStructural_sublist line).subset (List.mem_flatten.2 ⟨s, h, hm⟩))

/-- What opens or closes a body in a segment is all of it. -/
theorem isStructural_of_marked (hn : '\n' ∉ line) {s : Text} (h : s ∈ splitStructural line)
    {d : Directive} (hd : d.closing?.isSome = true)
    (hmark : d.occursIn s = true ∨ d.closesIn s = true) : IsStructural s := by
  have hns := newline_not_mem_segment hn h
  have hoccurs : structural.occursIn s = true :=
    hmark.elim (d.occursIn_structural_of_occursIn hd hns) (d.occursIn_structural_of_closesIn hns)
  refine (isolated_splitStructural h).resolve_right fun hnone => ?_
  rw [hnone] at hoccurs
  cases hoccurs

theorem directive_closing? (construct : Construct) : construct.directive.closing?.isSome = true := by
  cases construct <;> rfl

/-- Where no tag opens or closes a body, as many are open behind the line as before it. -/
theorem level_of_uncounted {l : Line}
    (h : ∀ d : Directive, d.closing?.isSome = true → l.Uncounted d) :
    (∀ capture : Capture, capture.depthAfter l = capture.depth) ∧
    ∀ depth rest, Layer.closingFrom? depth (l :: rest) =
      (Layer.closingFrom? depth rest).map (· + 1) := by
  refine ⟨fun capture => ?_, fun depth rest => ?_⟩
  · obtain ⟨hopens, hcloses⟩ := h _ (directive_closing? capture.construct)
    rw [capture.depthAfter_eq, Line.depthBehind, hopens, hcloses]
    rfl
  · obtain ⟨hopens, hcloses⟩ := h .block rfl
    unfold Line.opensBody at hopens
    unfold Line.closesBody at hcloses
    rw [Layer.closingFrom?]
    cases hr : l.rendered with
    | true => rfl
    | false =>
      rw [hr, Bool.not_false, Bool.true_and] at hopens hcloses
      simp [hopens, hcloses]

/-- **Cutting a line** loses nothing but blanks beside its structural tags and isolates each tag. -/
theorem splits_splitStructural (hn : '\n' ∉ line) : Splits line (splitStructural line) where
  nonempty := splitStructural_ne_nil line
  covers := exists_cover line
  isolated := fun s => isolated_splitStructural
  stable := fun s hs => (isolated_splitStructural hs).elim splitStructural_of_isStructural
    splitStructural_of_not_occursIn
  marked := fun s hs d hd => isStructural_of_marked hn hs hd
  level := by
    intro l hl hplain
    refine level_of_uncounted fun d hd => ?_
    have hnone : d.occursIn l.text = false ∧ d.closesIn l.text = false := by
      constructor
      · rw [← Bool.not_eq_true]
        exact fun h => hplain (isStructural_of_marked hn hl hd (.inl h))
      · rw [← Bool.not_eq_true]
        exact fun h => hplain (isStructural_of_marked hn hl hd (.inr h))
    simp [Line.Uncounted, Line.opensBody, Line.closesBody, hnone]

/-- A condition on one line: the text behind its closing tag is blank. -/
theorem splits_condition :
    Splits "a{% if x %} b{% endif %} ".toList
      ["a".toList, "{% if x %}".toList, " b".toList, "{% endif %}".toList] := by
  have hsegments : splitStructural "a{% if x %} b{% endif %} ".toList =
      ["a".toList, "{% if x %}".toList, " b".toList, "{% endif %}".toList] := by
    decide +kernel
  exact hsegments ▸ splits_splitStructural (by decide)

end Stencil
