import Stencil.Proofs.Render.Failure
import Stencil.Proofs.Render.Leftover

/-!
# A render without end

A path of the body of a loop may hold the variable of the loop behind its first segment, and then
the text of the current element is put into the tag. Nothing keeps that text from closing the tag
and from opening or closing a loop. In `splicing` the first element opens the loop once more, the
second one leaves the line as it is, and the third one closes the loop. So the three iterations of
the loop come to the same loop again, over the same body (`outcome_iterations_splicing`).
-/

namespace Stencil

namespace Engine

/-- A template with a loop that shows a path with the loop variable in it. -/
def splicing : Engine where
  templates := [("t".toList,
    "\x7b% for x in xs %\x7d\x7b\x7b a.x \x7d\x7d\x7b% endfor %\x7d".toList)]

/-- A list of which one element opens a loop over the list and another one closes it. -/
def openers : Context := Context.ofList
  [("xs".toList, .list
    [.str "\x7d\x7d\x7b% for x in xs %\x7d\x7b\x7b".toList, .str "x".toList,
      .str "\x7d\x7d\x7b% endfor %\x7d\x7b\x7b".toList])]

end Engine

namespace Render

open Engine (splicing openers)

/-- The loop of the template, which its elements open and close. -/
def again : LoopHeader := ⟨"x".toList, "xs".toList⟩

/-- The body of the loop. -/
def shown : Line := { text := "\x7b\x7b a.x \x7d\x7d".toList, glued := true }

/-- The body with the text of an element in it. -/
def spliced (key : Text) (position : Nat) : List Line :=
  (iteration openers again key position).expand [shown]

section Transient

variable {engine : Engine} {context : Context} {depth : Nat} {chain : Chain} {session : Session}
  {kind : LayerKind} {line : Line}

/-- A layer of one line is walked by handling the line. -/
theorem outcome_walk_single {name : Text} (hg : session.layers.get? name = some ⟨kind, [line]⟩) :
    outcome (walk engine context (depth + 1) (name :: chain)) session =
      (outcome (handle engine context (walk engine context depth) (name :: chain) line)
        (session.entered name)).map fun p =>
          ((), { p.2.write name 0 [p.1] with active := p.2.active.tail }) := by
  rw [outcome_walk_of_get? hg, outcome_handleFrom_cons]
  cases outcome (handle engine context (walk engine context depth) (name :: chain) line)
    (session.entered name) <;> rfl

theorem exists_transient_single {name : Text} {capture : Option Capture}
    (h : ∀ (full : Text) (started : Session), started.capture = session.capture →
      ∃ line' after, outcome (handle engine context (walk engine context depth) (full :: chain) line)
        started = .ok (line', after) ∧ after.capture = capture) :
    ∃ text after, outcome (transient (walk engine context (depth + 1)) chain name ⟨kind, [line]⟩)
      session = .ok (text, after) ∧ after.capture = capture := by
  have hg : (session.topped name ⟨kind, [line]⟩).layers.get?
      (session.transientName name ⟨kind, [line]⟩) = some ⟨kind, [line]⟩ :=
    Stack.get?_insert_self ..
  obtain ⟨line', after, hh, hc⟩ := h (session.transientName name ⟨kind, [line]⟩)
    ((session.topped name ⟨kind, [line]⟩).entered (session.transientName name ⟨kind, [line]⟩)) rfl
  rw [outcome_transient_eq, outcome_walk_single hg, hh]
  exact ⟨_, _, rfl, hc⟩

theorem outcome_transient_single_error {name : Text} {e : Error}
    (h : ∀ (full : Text) (started : Session), started.capture = session.capture →
      outcome (handle engine context (walk engine context depth) (full :: chain) line) started =
        .error e) :
    outcome (transient (walk engine context (depth + 1)) chain name ⟨kind, [line]⟩) session =
      .error e := by
  have hg : (session.topped name ⟨kind, [line]⟩).layers.get?
      (session.transientName name ⟨kind, [line]⟩) = some ⟨kind, [line]⟩ :=
    Stack.get?_insert_self ..
  rw [outcome_transient_eq, outcome_walk_single hg,
    h _ ((session.topped name ⟨kind, [line]⟩).entered _) rfl]
  rfl

/-- A line that only begins a body begins a capture. -/
theorem outcome_handle_begins {walker : Walker} {construct : Construct}
    (hc : session.capture = none) (hr : line.rendered = false)
    (hi : Directive.inherits.occursIn line.text = false)
    (hn : Directive.includes.occursIn line.text = false) (hb : line.begins? = some construct) :
    outcome (handle engine context walker chain line) session =
      .ok (line.blank, session.capturing { construct }) := by
  rw [outcome_handle_idle hc]
  unfold Directive.order
  rw [outcome_dispatch_skip _ hi, outcome_dispatch_skip _ hn, outcome_dispatch_bodies hr hc, hb]

end Transient

/-- The capture of the body while the loop is open. -/
def reopened (buffer : List Line) : Capture := { construct := .loop "x".toList "xs".toList, buffer }

/-- What the elements make of the body: the first one opens the loop, the second one leaves the body
as it is, and the third one closes the loop over what the second one has left. -/
theorem exists_spliced :
    ∃ first last, spliced "0".toList 0 = [first] ∧ spliced "1".toList 1 = [shown] ∧
      spliced "2".toList 2 = [last] ∧ first.rendered = false ∧
      Directive.inherits.occursIn first.text = false ∧
      Directive.includes.occursIn first.text = false ∧
      first.begins? = some (.loop "x".toList "xs".toList) ∧
      (reopened []).feed shown = .held (reopened [shown]) ∧
      (reopened [shown]).feed last = .closed (.loop "x".toList "xs".toList) [shown] := by
  refine ⟨_, _, rfl, ?_, rfl, ?_⟩
  · decide +kernel
  · decide +kernel

theorem loopKeys_again :
    loopKeys openers again = .ok ["0".toList, "1".toList, "2".toList] := by
  decide +kernel

/-- A line that closes the loop leads to the iterations over its body. -/
theorem outcome_handle_again {walker : Walker} {chain : Chain} {session : Session} {line : Line}
    {e : Error} (hc : session.Closes line (.loop "x".toList "xs".toList) [shown])
    (h : outcome (iterations openers walker chain again [shown] 0
      ["0".toList, "1".toList, "2".toList]) session.released = .error e) :
    outcome (handle splicing openers walker chain line) session = .error e := by
  rw [outcome_handle_of_closes hc]
  show outcome (endLoop openers walker chain again [shown] line) session.released = .error e
  unfold endLoop
  rw [loopKeys_again]
  exact outcome_bind_eq_error_iff.2 (.inl h)

/-- **The iterations of the loop never end**: the third one comes to all three of them again. -/
theorem outcome_iterations_splicing (depth : Nat) {chain : Chain} {session : Session}
    (hc : session.capture = none) :
    outcome (iterations openers (walk splicing openers depth) chain again [shown] 0
      ["0".toList, "1".toList, "2".toList]) session = .error .tooDeep := by
  induction depth generalizing chain session with
  | zero =>
    rw [iterations]
    exact outcome_bind_eq_error_iff.2 (.inl (outcome_transient_eq_error_iff.2 rfl))
  | succ depth ih =>
    obtain ⟨first, last, h0, h1, h2, hr, hi, hn, hb, hheld, hclosed⟩ := exists_spliced
    -- the first iteration leaves the loop open, and the second one goes into its body
    have hfirst : ∃ text after,
        outcome (transient (walk splicing openers (depth + 1)) chain (again.key ++ '.' :: "0".toList)
          ⟨.iteration, [first]⟩) session = .ok (text, after) ∧
        after.capture = some (reopened []) :=
      exists_transient_single fun full started hs =>
        ⟨_, _, outcome_handle_begins (hs.trans hc) hr hi hn hb, rfl⟩
    obtain ⟨text0, opened, hopen, hopened⟩ := hfirst
    have hsecond : ∃ text after,
        outcome (transient (walk splicing openers (depth + 1)) chain (again.key ++ '.' :: "1".toList)
          ⟨.iteration, [shown]⟩) opened = .ok (text, after) ∧
        after.capture = some (reopened [shown]) :=
      exists_transient_single fun full started hs =>
        ⟨_, _, outcome_handle_of_holds ⟨_, hs.trans hopened, hheld⟩, rfl⟩
    obtain ⟨text1, filled, hfill, hfilled⟩ := hsecond
    -- the third iteration closes the loop, one walk further down
    have hthird : outcome (transient (walk splicing openers (depth + 1)) chain
        (again.key ++ '.' :: "2".toList) ⟨.iteration, [last]⟩) filled = .error .tooDeep :=
      outcome_transient_single_error fun full started hs =>
        outcome_handle_again ⟨_, hs.trans hfilled, hclosed⟩ (ih rfl)
    rw [iterations]
    refine outcome_bind_eq_error_iff.2 (.inr ⟨text0, opened, by rw [← spliced, h0]; exact hopen, ?_⟩)
    refine outcome_bind_eq_error_iff.2 (.inl ?_)
    rw [iterations]
    refine outcome_bind_eq_error_iff.2 (.inr ⟨text1, filled, by rw [← spliced, h1]; exact hfill, ?_⟩)
    refine outcome_bind_eq_error_iff.2 (.inl ?_)
    rw [iterations]
    exact outcome_bind_eq_error_iff.2 (.inl (by rw [← spliced, h2]; exact hthird))

end Render

namespace Engine

/-- The line of the template. -/
def splicingSource : List Text :=
  ["\x7b% for x in xs %\x7d\x7b\x7b a.x \x7d\x7d\x7b% endfor %\x7d".toList]

theorem exists_splicingLines :
    ∃ first last, (Layer.ofSource .main splicingSource).lines = [first, Render.shown, last] ∧
      first.rendered = false ∧ Directive.inherits.occursIn first.text = false ∧
      Directive.includes.occursIn first.text = false ∧
      first.begins? = some (.loop "x".toList "xs".toList) ∧
      (Render.reopened []).feed Render.shown = .held (Render.reopened [Render.shown]) ∧
      (Render.reopened [Render.shown]).feed last =
        .closed (.loop "x".toList "xs".toList) [Render.shown] := by
  refine ⟨{ text := "\x7b% for x in xs %\x7d".toList },
    { text := "\x7b% endfor %\x7d".toList, glued := true }, ?_⟩
  decide +kernel

/-- **There are renders without end**: however deep the layers may be nested, it is not enough. -/
theorem renders_without_end (depth : Nat) :
    splicing.renderWithin depth "t".toList openers = .error .tooDeep := by
  have hl : splicing.loadLines "t".toList [] = .ok splicingSource := by decide +kernel
  rw [renderWithin_eq_error_iff, Render.outcome_load_eq, hl]
  cases depth with
  | zero => rfl
  | succ depth =>
    obtain ⟨first, last, hlines, hr, hi, hn, hb, hheld, hclosed⟩ := exists_splicingLines
    have hopen : ∃ after, Render.outcome
        (Render.handleFrom splicing openers (Render.walk splicing openers depth) [mainName] mainName 0
          [first, Render.shown]) ((Session.loading {} splicingSource).entered mainName) =
            .ok ((), after) ∧ after.capture = some (Render.reopened [Render.shown]) := by
      rw [Render.outcome_handleFrom_cons, Render.outcome_handle_begins rfl hr hi hn hb]
      simp only [Except.bind]
      rw [Render.outcome_handleFrom_cons, Render.outcome_handle_of_holds ⟨_, rfl, hheld⟩]
      exact ⟨_, rfl, rfl⟩
    obtain ⟨after, hopen, hafter⟩ := hopen
    have hcomes : Render.Comes splicing openers depth [mainName]
        (Session.loading {} splicingSource) last after := by
      have hsplit : (Layer.ofSource .main splicingSource).lines =
          [first, Render.shown] ++ last :: [] := by rw [hlines, List.cons_append]; rfl
      exact .intro (Stack.get?_insert_self ..) hsplit hopen
    have hfail : Render.outcome (Render.walk splicing openers (depth + 1) [mainName])
        (Session.loading {} splicingSource) = .error .tooDeep :=
      Render.outcome_walk_succ_eq_error_iff.2 ⟨last, after, hcomes,
        Render.outcome_handle_again ⟨_, hafter, hclosed⟩
          (Render.outcome_iterations_splicing depth rfl)⟩
    simp only [Except.bind]
    rw [hfail]

end Engine

end Stencil
