import Mathlib.Algebra.Group.Nat.Defs
import Stencil.Proofs.Nesting.Extent

/-!
# The weight of lines

The lines between the tags of a loop are walked once for each key. So a line inside `n` loops weighs
`(rounds + 1) ^ n`, where no loop has more than `rounds` keys. Which loops a line is inside is read
off the lines behind it: they are the loops that are closed there and not opened there
(`loopsAround`). The weight of a line thus depends on what comes behind it only.

What a loop has captured when it is closed opens as many loops as it closes. It weighs `rounds + 1`
times as much inside the loop as outside of it (`weight_of_holdAll`), so that all iterations together
weigh less than the loop.
-/

namespace Stencil

namespace Line

/-- Whether the line opens a loop for a capture that counts loops. -/
def opensLoop (line : Line) : Bool := !line.rendered && Directive.loop.occursIn line.text

/-- Whether the line closes a loop for a capture that counts loops. -/
def closesLoop (line : Line) : Bool := !line.rendered && Directive.loop.closesIn line.text

/-- What the line is for a capture that counts loops. -/
def loopMarks (line : Line) : Bool × Bool := (line.opensLoop, line.closesLoop)

end Line

/-- The number of loops that the first of the lines is inside, if `outer` of them are closed behind
the last one. -/
def loopsAround (outer : Nat) : List Line → Nat
  | [] => outer
  | line :: rest => loopsAround outer rest + line.closesLoop.toNat - line.opensLoop.toNat

/-- The weight of lines of which the last one is inside `outer` loops. -/
def weight (rounds outer : Nat) : List Line → Nat
  | [] => 0
  | _ :: rest => weight rounds outer rest + (rounds + 1) ^ loopsAround outer rest

variable {rounds outer : Nat} {lines lines' : List Line} {line : Line}

theorem loopsAround_append (outer : Nat) (lines behind : List Line) :
    loopsAround outer (lines ++ behind) = loopsAround (loopsAround outer behind) lines := by
  induction lines with
  | nil => rfl
  | cons line lines ih => rw [List.cons_append, loopsAround, ih, loopsAround]

theorem weight_append (rounds outer : Nat) (lines behind : List Line) :
    weight rounds outer (lines ++ behind) =
      weight rounds (loopsAround outer behind) lines + weight rounds outer behind := by
  induction lines with
  | nil => rw [List.nil_append, weight, Nat.zero_add]
  | cons line lines ih =>
    rw [List.cons_append, weight, ih, loopsAround_append, weight]
    omega

theorem loopsAround_mono {outer outer' : Nat} (h : outer ≤ outer') (lines : List Line) :
    loopsAround outer lines ≤ loopsAround outer' lines := by
  induction lines with
  | nil => exact h
  | cons line lines ih =>
    rw [loopsAround, loopsAround]
    omega

theorem weight_mono {outer outer' : Nat} (rounds : Nat) (h : outer ≤ outer') (lines : List Line) :
    weight rounds outer lines ≤ weight rounds outer' lines := by
  induction lines with
  | nil => exact Nat.le_refl 0
  | cons line lines ih =>
    rw [weight, weight]
    exact Nat.add_le_add ih
      (Nat.pow_le_pow_right (Nat.succ_pos rounds) (loopsAround_mono h lines))

/-- The weight depends on the tags of loops alone. -/
theorem weight_congr (rounds outer : Nat) (h : lines.map Line.loopMarks = lines'.map Line.loopMarks) :
    loopsAround outer lines = loopsAround outer lines' ∧
      weight rounds outer lines = weight rounds outer lines' := by
  induction lines generalizing lines' with
  | nil =>
    obtain rfl := List.map_eq_nil_iff.1 h.symm
    exact ⟨rfl, rfl⟩
  | cons line lines ih =>
    cases lines' with
    | nil => cases h
    | cons line' lines' =>
      obtain ⟨hmarks, hrest⟩ := List.cons.inj h
      obtain ⟨hopens, hcloses⟩ := Prod.mk.inj hmarks
      obtain ⟨hloops, hweight⟩ := ih hrest
      exact ⟨by rw [loopsAround, loopsAround, hloops, hopens, hcloses],
        by rw [weight, weight, hweight, hloops]⟩

theorem weight_lt_cons (rounds outer : Nat) (line : Line) (lines : List Line) :
    weight rounds outer lines < weight rounds outer (line :: lines) := by
  have hpos : 0 < (rounds + 1) ^ loopsAround outer lines := Nat.pow_pos (Nat.succ_pos rounds)
  rw [weight]
  omega

/-- A line that opens no loop, or closes one as well, is inside no fewer loops than what comes behind
it. -/
theorem loopsAround_le_of_marks (h : line.loopMarks ≠ (true, false)) (outer : Nat)
    (behind : List Line) : loopsAround outer behind ≤ loopsAround outer (line :: behind) := by
  have hmarks : line.opensLoop.toNat ≤ line.closesLoop.toNat := by
    unfold Line.loopMarks at h
    cases ho : line.opensLoop <;> cases hc : line.closesLoop <;> simp_all
  rw [loopsAround]
  omega

/-! ## What a loop captures -/

namespace Capture

variable {capture final : Capture} {construct : Construct} {body : List Line}

theorem depthAfter_of_loop (hl : capture.construct.directive = .loop) (line : Line) :
    capture.depthAfter line = capture.depth + line.opensLoop.toNat - line.closesLoop.toNat := by
  rw [depthAfter_eq, hl]
  rfl

/-- A line that closes what is captured, and no more, is inside one loop less than it. -/
theorem loopsAround_of_closed (hl : construct.directive = .loop) (hd : capture.depth ≠ 0)
    (h : capture.feed line = .closed construct body) (outer : Nat) (behind : List Line) :
    capture.depth = 1 ∧ loopsAround outer (line :: behind) = loopsAround outer behind + 1 := by
  obtain ⟨hdepth, rfl, rfl⟩ := eq_of_feed_closed h
  rw [depthAfter_of_loop hl] at hdepth
  have hopens := line.opensLoop.toNat_le
  have hcloses := line.closesLoop.toNat_le
  rw [loopsAround]
  omega

/-- What is captured until the depth is one again opens as many loops as it closes. -/
theorem loopsAround_of_holdAll (hl : capture.construct.directive = .loop) (hd : capture.depth ≠ 0)
    (h : capture.holdAll lines = some final) (hone : final.depth = 1) (outer : Nat) :
    loopsAround outer lines + 1 = outer + capture.depth := by
  induction lines generalizing capture with
  | nil =>
    obtain rfl := Option.some.inj h
    rw [hone, loopsAround]
  | cons line lines ih =>
    rw [holdAll] at h
    split at h
    · next next hf =>
      obtain ⟨hdepth, hnext⟩ := eq_of_feed_held hf
      have hloop : next.construct.directive = .loop := by rw [hnext, hl]
      have hafter : next.depth = capture.depth + line.opensLoop.toNat - line.closesLoop.toNat := by
        rw [hnext, depthAfter_of_loop hl]
      have hinside : next.depth ≠ 0 := by rwa [hnext]
      -- the depth never falls to zero, so that nothing is cut off when a loop is opened
      have hrest := ih hloop hinside h
      have hopens := line.opensLoop.toNat_le
      have hcloses := line.closesLoop.toNat_le
      rw [loopsAround]
      omega
    · cases h

/-- Such lines weigh `rounds + 1` times as much inside one loop more. -/
theorem weight_of_holdAll (hl : capture.construct.directive = .loop) (hd : capture.depth ≠ 0)
    (h : capture.holdAll lines = some final) (hone : final.depth = 1) (rounds outer : Nat) :
    weight rounds (outer + 1) lines = (rounds + 1) * weight rounds outer lines := by
  induction lines generalizing capture with
  | nil => rfl
  | cons line lines ih =>
    rw [holdAll] at h
    split at h
    · next next hf =>
      obtain ⟨hdepth, hnext⟩ := eq_of_feed_held hf
      have hloop : next.construct.directive = .loop := by rw [hnext, hl]
      have hinside : next.depth ≠ 0 := by rwa [hnext]
      have houter := loopsAround_of_holdAll hloop hinside h hone outer
      have hinner := loopsAround_of_holdAll hloop hinside h hone (outer + 1)
      have hloops : loopsAround (outer + 1) lines = loopsAround outer lines + 1 := by omega
      rw [weight, weight, ih hloop hinside h, hloops, Nat.pow_succ', Nat.mul_add]
    · cases h

end Capture

end Stencil
