import Mathlib.Data.List.Infix
import Stencil.Layer.Line
import Stencil.Tag.Directive

/-!
# Bodies that stay open

Where a body ends is a matter of two counts over the lines behind its opening tag: how many of them
open a body of the same directive, and how many close one. The body stays open for as long as fewer
are closed than are open (`StaysOpen`), and it is closed by the first line at which as many are
(`ClosesAt`). One of the two holds of any lines (`staysOpen_or_exists_closesAt`). Both are counted
from line to line (`staysOpen_cons_iff`, `closesAt_cons_iff`), which is how captures and slots count,
too. Lines between which nothing stays open (`Balanced`), such as the body of a block, can be left
out of either count.
-/

namespace Stencil

namespace Line

/-- Whether the line opens a body of the directive: the tag occurs on it and it is not rendered. -/
def opensBody (d : Directive) (line : Line) : Bool := !line.rendered && d.occursIn line.text

/-- Whether the line closes a body of the directive. -/
def closesBody (d : Directive) (line : Line) : Bool := !line.rendered && d.closesIn line.text

/-- The number of bodies that are open behind the line, if `depth` are open before it. -/
def depthBehind (d : Directive) (depth : Nat) (line : Line) : Nat :=
  depth + (line.opensBody d).toNat - (line.closesBody d).toNat

/-- The line neither opens nor closes a body of the directive. -/
def Uncounted (d : Directive) (line : Line) : Prop :=
  line.opensBody d = false ∧ line.closesBody d = false

theorem uncounted_of_rendered {line : Line} (h : line.rendered = true) (d : Directive) :
    line.Uncounted d := by
  simp [Uncounted, opensBody, closesBody, h]

end Line

/-- The number of lines that open a body of the directive. -/
def openings (d : Directive) (lines : List Line) : Nat := lines.countP (Line.opensBody d)

/-- The number of lines that close a body of the directive. -/
def closings (d : Directive) (lines : List Line) : Nat := lines.countP (Line.closesBody d)

/-- **A body stays open** over lines before which `depth` bodies are open: they are not all closed at
any of the lines. -/
def StaysOpen (d : Directive) (depth : Nat) (lines : List Line) : Prop :=
  ∀ before, before <+: lines → closings d before < openings d before + depth

/-- **The first line at which all are closed** of the `depth` bodies that are open. -/
structure ClosesAt (d : Directive) (depth : Nat) (body : List Line) (closing : Line) : Prop where
  staysOpen : StaysOpen d depth body
  closed : closings d (body ++ [closing]) = openings d (body ++ [closing]) + depth

/-- Lines that close what they open, and nothing else. -/
structure Balanced (d : Directive) (lines : List Line) : Prop where
  staysOpen : StaysOpen d 1 lines
  closings_eq : closings d lines = openings d lines

variable {d : Directive} {depth : Nat} {line closing : Line} {lines lines' body behind : List Line}

/-! ## The counts -/

@[simp] theorem openings_nil : openings d [] = 0 := rfl

@[simp] theorem closings_nil : closings d [] = 0 := rfl

@[simp] theorem openings_cons (line : Line) (lines : List Line) :
    openings d (line :: lines) = openings d lines + (line.opensBody d).toNat := by
  unfold openings
  rw [List.countP_cons]
  cases line.opensBody d <;> rfl

@[simp] theorem closings_cons (line : Line) (lines : List Line) :
    closings d (line :: lines) = closings d lines + (line.closesBody d).toNat := by
  unfold closings
  rw [List.countP_cons]
  cases line.closesBody d <;> rfl

@[simp] theorem openings_append (lines lines' : List Line) :
    openings d (lines ++ lines') = openings d lines + openings d lines' := List.countP_append

@[simp] theorem closings_append (lines lines' : List Line) :
    closings d (lines ++ lines') = closings d lines + closings d lines' := List.countP_append

theorem openings_of_uncounted (h : ∀ line ∈ lines, line.Uncounted d) : openings d lines = 0 :=
  List.countP_eq_zero.2 fun line hl => by simp [(h line hl).1]

theorem closings_of_uncounted (h : ∀ line ∈ lines, line.Uncounted d) : closings d lines = 0 :=
  List.countP_eq_zero.2 fun line hl => by simp [(h line hl).2]

/-! ## From line to line -/

/-- What is open behind a line is what the lines that follow count from. A line closes at most one
body, so that nothing is cut off if one is open. -/
theorem depthBehind_add (hd : 0 < depth) (line : Line) (lines : List Line) :
    line.depthBehind d depth + openings d lines - closings d lines =
      depth + openings d (line :: lines) - closings d (line :: lines) := by
  have hone := (line.closesBody d).toNat_le
  rw [openings_cons, closings_cons, Line.depthBehind]
  omega

theorem StaysOpen.pos (h : StaysOpen d depth lines) : 0 < depth := by
  have := h [] (List.nil_prefix)
  simpa using this

theorem StaysOpen.of_prefix (h : StaysOpen d depth lines) (hp : lines' <+: lines) :
    StaysOpen d depth lines' := fun before hb => h before (hb.trans hp)

theorem StaysOpen.mono {depth' : Nat} (h : StaysOpen d depth lines) (hle : depth ≤ depth') :
    StaysOpen d depth' lines := by
  intro before hb
  have := h before hb
  omega

theorem staysOpen_nil_iff : StaysOpen d depth [] ↔ 0 < depth := by
  refine ⟨StaysOpen.pos, fun h before hb => ?_⟩
  rw [List.prefix_nil.1 hb]
  simpa using h

/-- **One line of a body that stays open.** No body is closed that is not open, so that nothing is
cut off when the line closes one. -/
theorem staysOpen_cons_iff :
    StaysOpen d depth (line :: lines) ↔
      0 < depth ∧ StaysOpen d (line.depthBehind d depth) lines := by
  have hone := (line.closesBody d).toNat_le
  unfold Line.depthBehind
  constructor
  · intro h
    refine ⟨h.pos, fun before hb => ?_⟩
    have := h (line :: before) (List.cons_prefix_cons.2 ⟨rfl, hb⟩)
    rw [openings_cons, closings_cons] at this
    omega
  · rintro ⟨hd, h⟩ before hb
    cases before with
    | nil => simpa using hd
    | cons first before =>
      obtain ⟨rfl, hrest⟩ := List.cons_prefix_cons.1 hb
      have := h before hrest
      rw [openings_cons, closings_cons]
      omega

theorem staysOpen_append_iff :
    StaysOpen d depth (lines ++ lines') ↔
      StaysOpen d depth lines ∧
        StaysOpen d (depth + openings d lines - closings d lines) lines' := by
  induction lines generalizing depth with
  | nil => simpa [staysOpen_nil_iff] using StaysOpen.pos
  | cons line lines ih =>
    rw [List.cons_append, staysOpen_cons_iff, ih, staysOpen_cons_iff, and_assoc]
    refine and_congr_right fun hd => and_congr_right fun _ => ?_
    rw [depthBehind_add hd]

theorem closesAt_nil_iff :
    ClosesAt d depth [] closing ↔ 0 < depth ∧ closing.depthBehind d depth = 0 := by
  have hone := (closing.closesBody d).toNat_le
  unfold Line.depthBehind
  constructor
  · rintro ⟨hs, hc⟩
    simp only [List.nil_append, closings_cons, closings_nil, openings_cons, openings_nil] at hc
    exact ⟨hs.pos, by omega⟩
  · rintro ⟨hd, hc⟩
    refine ⟨staysOpen_nil_iff.2 hd, ?_⟩
    simp only [List.nil_append, closings_cons, closings_nil, openings_cons, openings_nil]
    omega

theorem closesAt_cons_iff :
    ClosesAt d depth (line :: body) closing ↔
      0 < depth ∧ ClosesAt d (line.depthBehind d depth) body closing := by
  have hone := (line.closesBody d).toNat_le
  have hcount (hd : 0 < depth) :
      closings d (line :: body ++ [closing]) = openings d (line :: body ++ [closing]) + depth ↔
        closings d (body ++ [closing]) =
          openings d (body ++ [closing]) + line.depthBehind d depth := by
    unfold Line.depthBehind
    rw [List.cons_append, openings_cons, closings_cons]
    omega
  constructor
  · rintro ⟨hs, hc⟩
    obtain ⟨hd, hs⟩ := staysOpen_cons_iff.1 hs
    exact ⟨hd, hs, (hcount hd).1 hc⟩
  · rintro ⟨hd, hs, hc⟩
    exact ⟨staysOpen_cons_iff.2 ⟨hd, hs⟩, (hcount hd).2 hc⟩

theorem closesAt_append_iff :
    ClosesAt d depth (lines ++ body) closing ↔
      StaysOpen d depth lines ∧
        ClosesAt d (depth + openings d lines - closings d lines) body closing := by
  constructor
  · rintro ⟨hs, hc⟩
    obtain ⟨hl, hb⟩ := staysOpen_append_iff.1 hs
    have := hl lines List.prefix_rfl
    rw [List.append_assoc, closings_append, openings_append] at hc
    exact ⟨hl, hb, by omega⟩
  · rintro ⟨hl, hb, hc⟩
    have := hl lines List.prefix_rfl
    refine ⟨staysOpen_append_iff.2 ⟨hl, hb⟩, ?_⟩
    rw [List.append_assoc, closings_append, openings_append]
    omega

instance decidableStaysOpen (d : Directive) :
    (depth : Nat) → (lines : List Line) → Decidable (StaysOpen d depth lines)
  | _, [] => decidable_of_iff _ staysOpen_nil_iff.symm
  | depth, line :: lines =>
    have := decidableStaysOpen d (line.depthBehind d depth) lines
    decidable_of_iff _ staysOpen_cons_iff.symm

instance decidableClosesAt (d : Directive) :
    (depth : Nat) → (body : List Line) → (closing : Line) → Decidable (ClosesAt d depth body closing)
  | _, [], _ => decidable_of_iff _ closesAt_nil_iff.symm
  | depth, line :: body, closing =>
    have := decidableClosesAt d (line.depthBehind d depth) body closing
    decidable_of_iff _ closesAt_cons_iff.symm

/-! ## Where a body ends -/

/-- **A body stays open or is closed** at some line. -/
theorem staysOpen_or_exists_closesAt (d : Directive) (hd : 0 < depth) (lines : List Line) :
    StaysOpen d depth lines ∨
      ∃ body closing behind, lines = body ++ closing :: behind ∧ ClosesAt d depth body closing := by
  induction lines generalizing depth with
  | nil => exact .inl (staysOpen_nil_iff.2 hd)
  | cons line lines ih =>
    rcases Nat.eq_zero_or_pos (line.depthBehind d depth) with hzero | hpos
    · exact .inr ⟨[], line, lines, rfl, closesAt_nil_iff.2 ⟨hd, hzero⟩⟩
    rcases ih hpos with hs | ⟨body, closing, behind, rfl, hc⟩
    · exact .inl (staysOpen_cons_iff.2 ⟨hd, hs⟩)
    · exact .inr ⟨line :: body, closing, behind, rfl, closesAt_cons_iff.2 ⟨hd, hc⟩⟩

theorem prefix_of_length_lt {body' behind' : List Line} {closing' : Line}
    (heq : body ++ closing :: behind = body' ++ closing' :: behind')
    (hlt : body.length < body'.length) : body ++ [closing] <+: body' := by
  have hp : body ++ [closing] <+: body' ++ closing' :: behind' := ⟨behind, by rw [← heq]; simp⟩
  refine List.prefix_of_prefix_length_le hp ⟨_, rfl⟩ ?_
  rw [List.length_append, List.length_singleton]
  exact hlt

namespace ClosesAt

theorem not_staysOpen (h : ClosesAt d depth body closing) (behind : List Line) :
    ¬ StaysOpen d depth (body ++ closing :: behind) := by
  intro hs
  have hp : body ++ [closing] <+: body ++ closing :: behind := ⟨behind, by simp⟩
  have hlt := hs _ hp
  have heq := h.closed
  omega

/-- Only one line closes a body. -/
theorem unique {body' behind' : List Line} {closing' : Line} (h : ClosesAt d depth body closing)
    (h' : ClosesAt d depth body' closing')
    (heq : body ++ closing :: behind = body' ++ closing' :: behind') :
    body = body' ∧ closing = closing' ∧ behind = behind' := by
  have hlen : body.length = body'.length := by
    -- otherwise one of the bodies goes beyond the line that closes the other
    rcases Nat.lt_trichotomy body.length body'.length with hlt | heq' | hlt
    · exact absurd (h'.staysOpen.of_prefix (prefix_of_length_lt heq hlt)) (h.not_staysOpen [])
    · exact heq'
    · exact absurd (h.staysOpen.of_prefix (prefix_of_length_lt heq.symm hlt)) (h'.not_staysOpen [])
  obtain ⟨rfl, hrest⟩ := List.append_inj heq hlen
  obtain ⟨rfl, rfl⟩ := List.cons.inj hrest
  exact ⟨rfl, rfl, rfl⟩

/-- The line that closes a body closes one body, and opens none. -/
theorem closing_eq (h : ClosesAt d depth body closing) :
    closing.closesBody d = true ∧ closing.opensBody d = false := by
  have hlt := h.staysOpen body List.prefix_rfl
  have heq := h.closed
  simp only [closings_append, closings_cons, closings_nil, openings_append, openings_cons,
    openings_nil] at heq
  cases hc : closing.closesBody d <;> cases ho : closing.opensBody d <;>
    simp only [hc, ho, Bool.toNat_true, Bool.toNat_false] at heq
  case true.false => exact ⟨rfl, rfl⟩
  all_goals omega

/-- **A body is balanced.** -/
theorem balanced (h : ClosesAt d 1 body closing) : Balanced d body := by
  refine ⟨h.staysOpen, ?_⟩
  obtain ⟨hc, ho⟩ := h.closing_eq
  have heq := h.closed
  simp only [closings_append, closings_cons, closings_nil, openings_append, openings_cons,
    openings_nil, hc, ho, Bool.toNat_true, Bool.toNat_false] at heq
  omega

end ClosesAt

/-! ## Balanced lines -/

theorem balanced_of_uncounted (h : ∀ line ∈ lines, line.Uncounted d) : Balanced d lines := by
  refine ⟨fun before hb => ?_, by rw [closings_of_uncounted h, openings_of_uncounted h]⟩
  rw [closings_of_uncounted fun line hl => h line (hb.subset hl)]
  omega

namespace Balanced

theorem staysOpen_append_iff (h : Balanced d lines) :
    StaysOpen d depth (lines ++ lines') ↔ StaysOpen d depth lines' := by
  rw [Stencil.staysOpen_append_iff, h.closings_eq, Nat.add_sub_cancel]
  exact ⟨And.right, fun hs => ⟨h.staysOpen.mono hs.pos, hs⟩⟩

theorem closesAt_append_iff (h : Balanced d lines) :
    ClosesAt d depth (lines ++ body) closing ↔ ClosesAt d depth body closing := by
  rw [Stencil.closesAt_append_iff, h.closings_eq, Nat.add_sub_cancel]
  exact ⟨And.right, fun hs => ⟨h.staysOpen.mono hs.staysOpen.pos, hs⟩⟩

/-- **What stands in the place of balanced lines** does not matter for whether a body stays open. -/
theorem staysOpen_congr (h : Balanced d lines) (h' : Balanced d lines') (before behind : List Line) :
    StaysOpen d depth (before ++ (lines ++ behind)) ↔
      StaysOpen d depth (before ++ (lines' ++ behind)) := by
  rw [@Stencil.staysOpen_append_iff _ _ before, @Stencil.staysOpen_append_iff _ _ before,
    h.staysOpen_append_iff, h'.staysOpen_append_iff]

/-- Nor does it matter for where the body is closed. -/
theorem closesAt_congr (h : Balanced d lines) (h' : Balanced d lines') (before behind : List Line) :
    ClosesAt d depth (before ++ (lines ++ behind)) closing ↔
      ClosesAt d depth (before ++ (lines' ++ behind)) closing := by
  rw [@Stencil.closesAt_append_iff _ _ _ before, @Stencil.closesAt_append_iff _ _ _ before,
    h.closesAt_append_iff, h'.closesAt_append_iff]

end Balanced

end Stencil
