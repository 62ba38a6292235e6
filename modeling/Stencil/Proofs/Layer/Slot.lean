import Stencil.Layer.Slot
import Stencil.Proofs.Layer.Balance
import Stencil.Proofs.Tag.Scanning

/-!
# Slots by the counts

A slot is looked for by counting tags from line to line. What is found can be said in one go: the
lines before the first tag that opens a block of that name, the body behind this tag, over which the
block stays open, and the line that closes it (`slot?_eq_some_iff`). There is no slot if no line
opens such a block, or if the block of the first one that does stays open to the end
(`slot?_eq_none_iff`).
-/

namespace Stencil

namespace Layer

variable {layer : Layer} {name other : Text} {slot : Slot} {depth k : Nat} {line : Line}
  {lines : List Line}

/-! ## The tag that opens a block -/

theorem opensBlock_eq_true_iff :
    opensBlock name line = true ↔
      line.rendered = false ∧ ∃ tag, Directive.block.find? line.text = some tag ∧
        tag.argument = name := by
  unfold opensBlock
  cases Directive.block.find? line.text <;> simp

/-- A line opens blocks of one name. -/
theorem name_eq_of_opensBlock (h : opensBlock name line = true)
    (h' : opensBlock other line = true) : name = other := by
  obtain ⟨-, tag, htag, rfl⟩ := opensBlock_eq_true_iff.1 h
  obtain ⟨-, tag', htag', rfl⟩ := opensBlock_eq_true_iff.1 h'
  obtain rfl := Option.some.inj (htag.symm.trans htag')
  rfl

theorem opensBody_of_opensBlock (h : opensBlock name line = true) :
    line.opensBody .block = true := by
  obtain ⟨hr, tag, htag, -⟩ := opensBlock_eq_true_iff.1 h
  have hocc : Directive.block.occursIn line.text = true := by
    rw [Directive.occursIn, ← Pattern.isSome_find?, ← Directive.find?, htag]
    rfl
  simp [Line.opensBody, hr, hocc]

theorem opensBlock_of_uncounted (h : line.Uncounted .block) (name : Text) :
    opensBlock name line = false := by
  rw [← Bool.not_eq_true]
  intro ho
  exact absurd h.1 (by rw [opensBody_of_opensBlock ho]; decide)

/-- A line that opens a block is not discarded. -/
theorem discarded_of_opensBlock (h : opensBlock name line = true) : line.discarded = false := by
  obtain ⟨-, tag, htag, -⟩ := opensBlock_eq_true_iff.1 h
  rw [← Bool.not_eq_true]
  intro hd
  have hocc := Directive.occursIn_of_isBlank (Bool.and_eq_true_iff.1 hd).2 .block
  rw [Directive.occursIn, ← Pattern.isSome_find?, ← Directive.find?, htag] at hocc
  cases hocc

theorem uncounted_blank (d : Directive) (line : Line) : line.blank.Uncounted d := by
  cases d <;> exact ⟨rfl, rfl⟩

/-! ## The tag that closes it -/

theorem closingFrom?_cons (line : Line) (rest : List Line) (hd : 0 < depth) :
    closingFrom? depth (line :: rest) =
      if line.depthBehind .block depth = 0 then some 0
      else (closingFrom? (line.depthBehind .block depth) rest).map (· + 1) := by
  by_cases hr : line.rendered = true
  · have hline := Line.uncounted_of_rendered hr .block
    simp [closingFrom?, hr, Line.depthBehind, hline.1, hline.2, hd.ne']
  have hopened : (if Directive.block.occursIn line.text then depth + 1 else depth) =
      depth + (line.opensBody .block).toNat := by
    simp only [Line.opensBody, hr, Bool.not_false, Bool.true_and]
    cases Directive.block.occursIn line.text <;> rfl
  have hcloses : line.closesBody .block = Directive.block.closesIn line.text := by
    simp [Line.closesBody, hr]
  rw [closingFrom?, if_neg hr, Line.depthBehind, hcloses]
  simp only [hopened]
  generalize depth + (line.opensBody .block).toNat = inner at hopened
  have hpos : 0 < inner := by
    rw [← hopened]
    split <;> omega
  cases Directive.block.closesIn line.text with
  | false => simp [hpos.ne']
  | true =>
    have hone : inner ≤ 1 ↔ inner - 1 = 0 := by omega
    simp [hone]

theorem closingFrom?_eq_some_iff (hd : 0 < depth) :
    closingFrom? depth lines = some k ↔
      ∃ body closing behind, lines = body ++ closing :: behind ∧ body.length = k ∧
        ClosesAt .block depth body closing := by
  induction lines generalizing depth k with
  | nil =>
    constructor
    · intro h
      cases h
    · rintro ⟨body, closing, behind, hl, -⟩
      simp at hl
  | cons line lines ih =>
    rw [closingFrom?_cons line lines hd]
    split
    · next hzero =>
      have hclose : ClosesAt .block depth [] line := closesAt_nil_iff.2 ⟨hd, hzero⟩
      constructor
      · intro h
        obtain rfl := Option.some.inj h
        exact ⟨[], line, lines, rfl, rfl, hclose⟩
      · rintro ⟨body, closing, behind, hl, rfl, hc⟩
        obtain ⟨rfl, -⟩ := hclose.unique hc (by simpa using hl)
        rfl
    · next hpos =>
      rw [Option.map_eq_some_iff]
      constructor
      · rintro ⟨k, hk, rfl⟩
        obtain ⟨body, closing, behind, rfl, rfl, hc⟩ := (ih (Nat.pos_of_ne_zero hpos)).1 hk
        exact ⟨line :: body, closing, behind, rfl, rfl, closesAt_cons_iff.2 ⟨hd, hc⟩⟩
      · rintro ⟨body, closing, behind, hl, rfl, hc⟩
        cases body with
        | nil =>
          obtain ⟨rfl, -⟩ := List.cons.inj hl
          exact absurd (closesAt_nil_iff.1 hc).2 hpos
        | cons first body =>
          obtain ⟨rfl, rfl⟩ := List.cons.inj hl
          exact ⟨body.length, (ih (Nat.pos_of_ne_zero hpos)).2
            ⟨body, closing, behind, rfl, rfl, (closesAt_cons_iff.1 hc).2⟩, rfl⟩

theorem closingFrom?_eq_none_iff (hd : 0 < depth) :
    closingFrom? depth lines = none ↔ StaysOpen .block depth lines := by
  constructor
  · intro h
    rcases staysOpen_or_exists_closesAt .block hd lines with hs | ⟨body, closing, behind, hl, hc⟩
    · exact hs
    · rw [(closingFrom?_eq_some_iff hd).2 ⟨body, closing, behind, hl, rfl, hc⟩] at h
      cases h
  · intro h
    rw [Option.eq_none_iff_forall_ne_some]
    intro k hk
    obtain ⟨body, closing, behind, rfl, -, hc⟩ := (closingFrom?_eq_some_iff hd).1 hk
    exact hc.not_staysOpen behind h

/-! ## Slots -/

/-- The first line that opens a block of that name, with the lines before and behind it. -/
theorem findIdx?_opensBlock_eq_some_iff {i : Nat} :
    lines.findIdx? (opensBlock name) = some i ↔
      ∃ before opening behind, lines = before ++ opening :: behind ∧ before.length = i ∧
        (∀ line ∈ before, opensBlock name line = false) ∧ opensBlock name opening = true := by
  constructor
  · intro h
    obtain ⟨hlt, ho, hbefore⟩ := List.findIdx?_eq_some_iff_getElem.1 h
    refine ⟨lines.take i, lines[i], lines.drop (i + 1), ?_, ?_, ?_, ho⟩
    · rw [List.getElem_cons_drop, List.take_append_drop]
    · rw [List.length_take]
      omega
    · intro line hl
      obtain ⟨j, hj, rfl⟩ := List.getElem_of_mem hl
      rw [List.length_take] at hj
      simpa using hbefore j (by omega)
  · rintro ⟨before, opening, behind, rfl, rfl, hbefore, ho⟩
    rw [List.findIdx?_append, List.findIdx?_eq_none_iff.2 hbefore, List.findIdx?_cons, ho]
    simp

/-- **The lines of a slot**: those before its opening tag, its body, and those behind its closing
tag. -/
theorem slot?_eq_some_iff :
    layer.slot? name = some slot ↔
      ∃ before opening body closing behind,
        layer.lines = before ++ opening :: (body ++ closing :: behind) ∧
        slot = ⟨before.length, before.length + 1 + body.length⟩ ∧
        (∀ line ∈ before, opensBlock name line = false) ∧ opensBlock name opening = true ∧
        ClosesAt .block 1 body closing := by
  have hdrop : ∀ (before : List Line) (opening : Line) (behind : List Line),
      (before ++ opening :: behind).drop (before.length + 1) = behind := by
    intro before opening behind
    simp [List.drop_append]
  simp only [slot?, Option.bind_eq_bind, Option.bind_eq_some_iff, Option.pure_def,
    Option.some.injEq, findIdx?_opensBlock_eq_some_iff, closingFrom?_eq_some_iff Nat.one_pos]
  constructor
  · rintro ⟨i, ⟨before, opening, rest, hl, rfl, hbefore, ho⟩, k, hk, rfl⟩
    obtain ⟨body, closing, behind, hrest, rfl, hc⟩ := hk
    rw [hl, hdrop] at hrest
    exact ⟨before, opening, body, closing, behind, by rw [hl, hrest], rfl, hbefore, ho, hc⟩
  · rintro ⟨before, opening, body, closing, behind, hl, rfl, hbefore, ho, hc⟩
    exact ⟨before.length, ⟨before, opening, _, hl, rfl, hbefore, ho⟩, body.length,
      ⟨body, closing, behind, by rw [hl, hdrop], rfl, hc⟩, rfl⟩

/-- **A layer has no slot of a name** if no line opens a block of that name, or if the first such
block stays open to the end. -/
theorem slot?_eq_none_iff :
    layer.slot? name = none ↔
      (∀ line ∈ layer.lines, opensBlock name line = false) ∨
        ∃ before opening behind, layer.lines = before ++ opening :: behind ∧
          (∀ line ∈ before, opensBlock name line = false) ∧ opensBlock name opening = true ∧
          StaysOpen .block 1 behind := by
  constructor
  · intro h
    cases hi : layer.lines.findIdx? (opensBlock name) with
    | none => exact .inl (List.findIdx?_eq_none_iff.1 hi)
    | some i =>
      obtain ⟨before, opening, behind, hl, rfl, hbefore, ho⟩ := findIdx?_opensBlock_eq_some_iff.1 hi
      refine .inr ⟨before, opening, behind, hl, hbefore, ho, ?_⟩
      rcases staysOpen_or_exists_closesAt .block Nat.one_pos behind with hs | hclose
      · exact hs
      · obtain ⟨body, closing, rest, rfl, hc⟩ := hclose
        rw [slot?_eq_some_iff.2 ⟨before, opening, body, closing, rest, hl, rfl, hbefore, ho, hc⟩] at h
        cases h
  · intro h
    rw [Option.eq_none_iff_forall_ne_some]
    intro slot hslot
    obtain ⟨before, opening, body, closing, behind, hl, -, hbefore, ho, hc⟩ :=
      slot?_eq_some_iff.1 hslot
    rcases h with h | ⟨before', opening', behind', hl', hbefore', ho', hs⟩
    · rw [h opening (by simp [hl])] at ho
      cases ho
    · have hfirst := findIdx?_opensBlock_eq_some_iff.2 ⟨_, _, _, hl, rfl, hbefore, ho⟩
      have hfirst' := findIdx?_opensBlock_eq_some_iff.2 ⟨_, _, _, hl', rfl, hbefore', ho'⟩
      obtain ⟨rfl, hrest⟩ := List.append_inj (hl.symm.trans hl')
        (Option.some.inj (hfirst.symm.trans hfirst'))
      obtain ⟨-, rfl⟩ := List.cons.inj hrest
      exact hc.not_staysOpen behind hs

/-- A layer of blank lines has no slots. -/
theorem slot?_of_isBlank (h : ∀ line ∈ layer.lines, Text.isBlank line.text = true) (name : Text) :
    layer.slot? name = none := by
  refine slot?_eq_none_iff.2 (.inl fun line hl => ?_)
  rw [← Bool.not_eq_true]
  intro ho
  have hopens := opensBody_of_opensBlock ho
  rw [Line.opensBody, Directive.occursIn_of_isBlank (h line hl), Bool.and_false] at hopens
  cases hopens

end Layer

end Stencil
