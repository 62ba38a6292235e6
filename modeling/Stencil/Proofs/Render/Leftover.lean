import Stencil.Proofs.Render.Handling

/-!
# Captures that are never closed

A body that is opened in a layer need not be closed there. An inclusion gives up the capture that is
left over, and no other layer does: `walk_leaves_iff` says exactly when the walk of a layer leaves a
capture open. Whatever comes behind the layer goes into that capture until some line closes it. So
one iteration of a loop swallows the next one (`swallowed`).
-/

namespace Stencil

/-- The capture once it has held all of the lines, unless one of them closes it. -/
def Capture.holdAll (capture : Capture) : List Line → Option Capture
  | [] => some capture
  | line :: rest =>
    match capture.feed line with
    | .held capture => capture.holdAll rest
    | .closed _ _ => none

/-- The line is held by the capture that is open. -/
def Session.Holds (session : Session) (line : Line) (next : Capture) : Prop :=
  ∃ capture, session.capture = some capture ∧ capture.feed line = .held next

namespace Render

variable {engine : Engine} {context : Context} {walker : Walker} {chain : Chain} {name : Text}
  {session after : Session} {line line' : Line} {capture : Capture}

/-- **The lines leave a capture open** if one of them does and none behind it closes it. -/
inductive LeavesOpen (engine : Engine) (context : Context) (walker : Walker) (chain : Chain)
    (name : Text) : (position : Nat) → List Line → Session → Capture → Prop where
  /-- The line is not held. It begins the capture, or it closes a body and a layer that is walked
  for the body leaves the capture open. -/
  | here {position : Nat} {line line' : Line} {rest : List Line} {session after : Session}
    {opened capture : Capture} (hn : ∀ next, ¬ session.Holds line next)
    (hh : outcome (handle engine context walker chain line) session = .ok (line', after))
    (ho : after.capture = some opened) (hr : opened.holdAll rest = some capture) :
    LeavesOpen engine context walker chain name position (line :: rest) session capture
  | later {position : Nat} {line line' : Line} {rest : List Line} {session after : Session}
    {capture : Capture}
    (hh : outcome (handle engine context walker chain line) session = .ok (line', after))
    (hr : LeavesOpen engine context walker chain name (position + 1) rest
      (after.write name position [line']) capture) :
    LeavesOpen engine context walker chain name position (line :: rest) session capture

theorem outcome_handle_of_holds {next : Capture} (h : session.Holds line next) :
    outcome (handle engine context walker chain line) session =
      .ok (line.blank, session.capturing next) := by
  obtain ⟨start, hc, hf⟩ := h
  rw [handle, outcome_bind, outcome_get]
  simp only [Except.bind, hc, hf]
  rw [outcome_bind, outcome_modify]
  rfl

theorem leavesOpen_cons_iff {position : Nat} {rest : List Line}
    (hh : outcome (handle engine context walker chain line) session = .ok (line', after)) :
    LeavesOpen engine context walker chain name position (line :: rest) session capture ↔
      ((∀ next, ¬ session.Holds line next) ∧
        ∃ opened, after.capture = some opened ∧ opened.holdAll rest = some capture) ∨
      LeavesOpen engine context walker chain name (position + 1) rest
        (after.write name position [line']) capture := by
  constructor
  · intro h
    cases h with
    | here hn hh' ho hr =>
      rw [hh] at hh'
      cases hh'
      exact .inl ⟨hn, _, ho, hr⟩
    | later hh' hr =>
      rw [hh] at hh'
      cases hh'
      exact .inr hr
  · rintro (⟨hn, opened, ho, hr⟩ | hr)
    · exact .here hn hh ho hr
    · exact .later hh hr

/-- A capture that is open behind some lines has held them all, or they have left it open. -/
theorem capture_handleFrom_iff {position : Nat} {lines : List Line}
    (h : outcome (handleFrom engine context walker chain name position lines) session =
      .ok ((), after)) :
    after.capture = some capture ↔
      (∃ start, session.capture = some start ∧ start.holdAll lines = some capture) ∨
        LeavesOpen engine context walker chain name position lines session capture := by
  induction lines generalizing position session with
  | nil =>
    obtain rfl : session = after := (Prod.mk.inj (Except.ok.inj h)).2
    constructor
    · intro hc
      exact .inl ⟨capture, hc, rfl⟩
    · rintro (⟨start, hc, hhold⟩ | hleaves)
      · rw [hc, ← hhold]
        rfl
      · cases hleaves
  | cons line rest ih =>
    rw [outcome_handleFrom_cons] at h
    obtain ⟨⟨line', between⟩, hh, h⟩ := Except.bind_eq_ok_iff.1 h
    rw [ih h, Session.capture_write, leavesOpen_cons_iff hh, ← or_assoc]
    refine or_congr_left ?_
    by_cases hheld : ∃ next, session.Holds line next
    · obtain ⟨next, hnext⟩ := hheld
      obtain ⟨-, rfl⟩ := Prod.mk.inj (Except.ok.inj (hh.symm.trans (outcome_handle_of_holds hnext)))
      have hholds : ¬ ∀ next, ¬ session.Holds line next := fun hn => hn next hnext
      obtain ⟨start, hc, hf⟩ := hnext
      have hhold : start.holdAll (line :: rest) = next.holdAll rest := by rw [Capture.holdAll, hf]
      simp [hc, hhold, hholds]
    · have hnone : ∀ start, session.capture = some start →
          start.holdAll (line :: rest) = none := by
        intro start hc
        rw [Capture.holdAll]
        cases hf : start.feed line with
        | held next => exact absurd ⟨next, start, hc, hf⟩ hheld
        | closed construct body => rfl
      constructor
      · rintro ⟨opened, ho, hr⟩
        exact .inr ⟨fun next hn => hheld ⟨next, hn⟩, opened, ho, hr⟩
      · rintro (⟨start, hc, hr⟩ | ⟨-, hopened⟩)
        · rw [hnone start hc] at hr
          cases hr
        · exact hopened

/-- **What outlives a layer.** The walk of a layer that starts without a capture leaves one open if
and only if the lines of the layer do. Only an inclusion gives it up. -/
theorem walk_leaves_iff {depth : Nat} {outer : Chain} {layer : Layer}
    (hc : session.capture = none) (hg : session.layers.get? name = some layer)
    (hw : outcome (walk engine context (depth + 1) (name :: outer)) session = .ok ((), after)) :
    (∀ capture, after.capture = some capture ↔
      LeavesOpen engine context (walk engine context depth) (name :: outer) name 0 layer.lines
        (session.entered name) capture) ∧
    ∀ partialName page final,
      outcome (included engine (walk engine context depth) (name :: outer) partialName) session =
        .ok (page, final) → final.capture = none := by
  refine ⟨fun capture => ?_, fun _ _ _ => capture_of_included hc⟩
  rw [walk, outcome_entering, outcome_bind, outcome_get] at hw
  simp only [Except.bind, Session.layers_entered, hg] at hw
  cases hlines : outcome (handleFrom engine context (walk engine context depth) (name :: outer) name 0
      layer.lines) (session.entered name) with
  | error e => rw [hlines] at hw; cases hw
  | ok p =>
    obtain ⟨u, final⟩ := p
    have hafter : after.capture = final.capture := by
      rw [hlines] at hw
      cases hw
      rfl
    rw [hafter, capture_handleFrom_iff hlines]
    have hidle : (session.entered name).capture = none := hc
    simp [hidle]

/-- A template whose loop opens a condition and does not close it. -/
def unclosed : Engine where
  templates := [("t".toList,
    "\x7b% for x in xs %\x7d[\x7b% if x %\x7d\x7b\x7b x \x7d\x7d\x7b% endfor %\x7d]".toList)]

/-- Two elements. -/
def pair : Context := Context.ofList [("xs".toList, .list [.int 1, .int 2])]

/-- The body of the loop for the first element. -/
def iterated : Layer :=
  ⟨.iteration, (Layer.ofSource .iteration ["[\x7b% if xs.0 %\x7d\x7b\x7b xs.0 \x7d\x7d".toList]).lines⟩

/-- The session in which the first iteration is walked. -/
def walkedFirst : Session := { layers := { layers := [("loop".toList, iterated)] } }

/-- **One iteration swallows the next one**, and what comes behind the loop: the first one leaves its
condition open. -/
theorem swallowed :
    LeavesOpen unclosed pair (walk unclosed pair 0) ["loop".toList] "loop".toList 0 iterated.lines
      (walkedFirst.entered "loop".toList)
      { construct := .condition "xs.0".toList
        buffer := [{ text := "\x7b\x7b xs.0 \x7d\x7d".toList, glued := true }] } ∧
    unclosed.render "t".toList pair = .ok "[".toList := by
  refine ⟨?_, by decide +kernel⟩
  have hends : (outcome (walk unclosed pair 1 ["loop".toList]) walkedFirst).map
      (fun p => p.2.capture) = .ok (some
        { construct := .condition "xs.0".toList
          buffer := [{ text := "\x7b\x7b xs.0 \x7d\x7d".toList, glued := true }] }) := by
    decide +kernel
  cases hw : outcome (walk unclosed pair 1 ["loop".toList]) walkedFirst with
  | error e => rw [hw] at hends; cases hends
  | ok p =>
    obtain ⟨u, after⟩ := p
    rw [hw] at hends
    exact ((walk_leaves_iff rfl (by decide +kernel) hw).1 _).1 (Except.ok.inj hends)

end Render

end Stencil
