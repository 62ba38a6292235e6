import Stencil.Proofs.Layer.Balance
import Stencil.Proofs.Render.Leftover

/-!
# What a capture takes

A capture goes from line to line by its depth, and blanks the lines that it holds where they stood.
How far it goes can be said without the depth, by two counts over the lines behind the one that
began it: it holds lines for as long as a body of its directive stays open over them
(`holdAll_eq_some_iff`), and the line that closes this body ends it (`feed_of_closesAt`). The depth
is how many more bodies were opened than closed, and one; it never falls below one. From one line
this carries over to a walk: `outcome_captured` says what becomes of the layer and of the session.
-/

namespace Stencil

namespace Capture

variable {capture next final : Capture} {construct : Construct} {line closing : Line}
  {lines lines' body : List Line}

/-! ## From line to line -/

theorem eq_of_feed_held (h : capture.feed line = .held next) :
    capture.depthAfter line ≠ 0 ∧ next =
      { capture with depth := capture.depthAfter line, buffer := capture.buffer ++ [line] } := by
  simp only [feed] at h
  split at h
  · cases h
  · next hdepth => exact ⟨hdepth, (Step.held.inj h).symm⟩

theorem eq_of_feed_closed (h : capture.feed line = .closed construct body) :
    capture.depthAfter line = 0 ∧ capture.construct = construct ∧ capture.buffer = body := by
  simp only [feed] at h
  split at h
  · next hdepth => exact ⟨hdepth, Step.closed.inj h⟩
  · cases h

theorem holdAll_cons (h : capture.feed line = .held next) (lines : List Line) :
    capture.holdAll (line :: lines) = next.holdAll lines := by
  rw [holdAll, h]

theorem exists_of_holdAll_cons (h : capture.holdAll (line :: lines) = some final) :
    ∃ next, capture.feed line = .held next ∧ next.holdAll lines = some final := by
  rw [holdAll] at h
  split at h
  · next next hf => exact ⟨next, hf, h⟩
  · cases h

theorem holdAll_append (h : capture.holdAll lines = some next) (lines' : List Line) :
    capture.holdAll (lines ++ lines') = next.holdAll lines' := by
  induction lines generalizing capture with
  | nil => rw [List.nil_append, Option.some.inj h]
  | cons line lines ih =>
    obtain ⟨between, hf, hrest⟩ := exists_of_holdAll_cons h
    rw [List.cons_append, holdAll_cons hf, ih hrest]

theorem exists_of_holdAll_append (h : capture.holdAll (lines ++ lines') = some final) :
    ∃ next, capture.holdAll lines = some next ∧ next.holdAll lines' = some final := by
  induction lines generalizing capture with
  | nil => exact ⟨capture, rfl, h⟩
  | cons line lines ih =>
    obtain ⟨next, hf, hrest⟩ := exists_of_holdAll_cons h
    obtain ⟨mid, hmid, hfinal⟩ := ih hrest
    exact ⟨mid, (holdAll_cons hf lines).trans hmid, hfinal⟩

/-! ## By the counts -/

theorem depthAfter_eq (capture : Capture) (line : Line) :
    capture.depthAfter line = line.depthBehind capture.construct.directive capture.depth := by
  simp only [depthAfter, Line.depthBehind, Line.opensBody, Line.closesBody]
  cases hr : line.rendered
  · cases capture.construct.directive.occursIn line.text <;>
      cases capture.construct.directive.closesIn line.text <;> simp
  · simp

/-- **The lines that a capture holds** are those over which a body stays open. Each of them is in the
buffer as it was, and in order. -/
theorem holdAll_eq_some_iff (hd : 0 < capture.depth) :
    capture.holdAll lines = some final ↔
      StaysOpen capture.construct.directive capture.depth lines ∧
        final = { capture with
          depth := capture.depth + openings capture.construct.directive lines -
            closings capture.construct.directive lines
          buffer := capture.buffer ++ lines } := by
  induction lines generalizing capture with
  | nil =>
    rw [holdAll, staysOpen_nil_iff]
    simp [hd, eq_comm]
  | cons line lines ih =>
    rw [holdAll, feed, depthAfter_eq, staysOpen_cons_iff]
    rcases Nat.eq_zero_or_pos (line.depthBehind capture.construct.directive capture.depth) with
      hzero | hpos
    · simp only [hzero, ↓reduceIte]
      constructor
      · intro h
        cases h
      · rintro ⟨⟨-, hs⟩, -⟩
        exact absurd hs.pos (Nat.lt_irrefl 0)
    · simp only [hpos.ne', ↓reduceIte]
      rw [ih hpos]
      simp only [depthBehind_add hd, List.append_assoc, List.singleton_append, hd, true_and]

/-- What a capture is after it has held some lines. -/
theorem of_holdAll (h : capture.holdAll lines = some final) (hd : capture.depth ≠ 0) :
    final.construct = capture.construct ∧ final.buffer = capture.buffer ++ lines ∧
      final.depth ≠ 0 := by
  obtain ⟨hs, rfl⟩ := (holdAll_eq_some_iff (Nat.pos_of_ne_zero hd)).1 h
  have hlt := hs lines List.prefix_rfl
  exact ⟨rfl, rfl, by simp only; omega⟩

/-- **The line that closes the body** ends the capture, which gives back all it holds. -/
theorem feed_of_closesAt (h : ClosesAt capture.construct.directive capture.depth body closing) :
    ∃ last, capture.holdAll body = some last ∧ last.construct = capture.construct ∧
      last.buffer = capture.buffer ++ body ∧ last.depthAfter closing = 0 := by
  have hlast := (holdAll_eq_some_iff h.staysOpen.pos).2 ⟨h.staysOpen, rfl⟩
  rw [← List.append_nil body, closesAt_append_iff, closesAt_nil_iff] at h
  refine ⟨_, hlast, rfl, rfl, ?_⟩
  rw [depthAfter_eq]
  exact h.2.2

end Capture

namespace Render

variable {engine : Engine} {context : Context} {walk : Walker} {chain : Chain}

/-- The lines that a capture holds are blanked where they stood, and nothing comes of them. -/
theorem outcome_handleFrom_of_holdAll {capture final : Capture} {lines : List Line}
    (h : capture.holdAll lines = some final) (name : Text) (position : Nat) (tail : List Line)
    (session : Session) :
    outcome (handleFrom engine context walk chain name position (lines ++ tail))
        (session.capturing capture) =
      outcome (handleFrom engine context walk chain name (position + lines.length) tail)
        ((session.write name position (lines.map Line.blank)).capturing final) := by
  induction lines generalizing capture position session with
  | nil =>
    obtain rfl := Option.some.inj h
    simp
  | cons line lines ih =>
    obtain ⟨next, hf, hrest⟩ := Capture.exists_of_holdAll_cons h
    obtain ⟨hdepth, rfl⟩ := Capture.eq_of_feed_held hf
    rw [List.cons_append, outcome_handleFrom_held name position _ session hdepth, ih hrest,
      Session.write_write session name (lines.map Line.blank)
        (by rw [List.length_singleton] : position + 1 = position + [line.blank].length),
      List.length_cons, Nat.add_assoc, Nat.add_comm 1 lines.length]
    rfl

/-- The line that closes a body ends its capture: what comes of the body takes the place of the line,
and the lines behind it are handled without a capture. -/
theorem outcome_handleFrom_of_closesAt {capture : Capture} {body : List Line} {closing : Line}
    {session : Session} (hc : session.capture = none)
    (h : ClosesAt capture.construct.directive capture.depth body closing) (name : Text)
    (position : Nat) (behind : List Line) :
    outcome (handleFrom engine context walk chain name position (body ++ closing :: behind))
        (session.capturing capture) =
      (outcome (close context walk chain (capture.buffer ++ body) closing capture.construct)
        (session.write name position (body.map Line.blank))).bind fun p =>
          outcome (handleFrom engine context walk chain name (position + body.length + 1) behind)
            (p.2.write name (position + body.length) [p.1]) := by
  obtain ⟨last, hlast, hconstruct, hbuffer, hzero⟩ := Capture.feed_of_closesAt h
  have hidle : (session.write name position (body.map Line.blank)).capture = none := hc
  rw [outcome_handleFrom_of_holdAll hlast, outcome_handleFrom_cons, outcome_handle_closes hidle hzero,
    hbuffer, hconstruct]

/-- The body of a condition with another one in it, the line that closes it, and one line more. -/
def capturedLines : List Line :=
  ["\x7b% if b %\x7d", "\x7b% endblock %\x7d", "\x7b% endif %\x7d", "\x7b% endif %\x7d",
    "behind"].map fun text => { text := text.toList }

end Render

end Stencil
