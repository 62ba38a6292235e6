import Stencil.Proofs.Layer.Stack
import Stencil.Proofs.Nesting.Basic
import Stencil.Render.Page

/-!
# Outcomes of renders

A render that fails leaves a session behind, but nothing looks at it any more. `Render.outcome` is a
render without that session: a result with the session it leaves, or an error. It turns the steps of
a render into steps of `Except` (`outcome_bind`), which is how the lemmas on walks are stated. A page
is that of the session in which the load of its template ends (`renderWithin_eq_outcome`).
-/

namespace Stencil

namespace Session

/-- The session with lines of a layer stored from a position on. -/
def write (session : Session) (name : Text) (position : Nat) (out : List Line) : Session :=
  { session with layers := session.layers.write name position out }

@[simp] theorem capture_write (session : Session) (name : Text) (i : Nat) (out : List Line) :
    (session.write name i out).capture = session.capture := rfl

theorem write_write (session : Session) (name : Text) {i j : Nat} {out : List Line}
    (out' : List Line) (h : j = i + out.length) :
    (session.write name i out).write name j out' = session.write name i (out ++ out') := by
  subst h
  simp only [write, Stack.write_append]

/-- The session when the walk of a layer begins. -/
def entered (session : Session) (name : Text) : Session :=
  { session with active := name :: session.active }

@[simp] theorem layers_entered (session : Session) (name : Text) :
    (session.entered name).layers = session.layers := rfl

/-- The session with the template asked for on the stack. -/
def loading (session : Session) (lines : List Text) : Session :=
  { session with layers := session.layers.insert mainName (Layer.ofSource .main lines) }

@[simp] theorem write_nil (session : Session) (name : Text) (i : Nat) :
    session.write name i [] = session := by
  simp [write]

end Session

namespace Render

variable {α β : Type}

/-- The result of a render with the session it leaves, or its error. -/
def outcome (part : Render α) (session : Session) : Except Error (α × Session) :=
  match part session with
  | (.ok a, session') => .ok (a, session')
  | (.error e, _) => .error e

@[simp] theorem outcome_pure (a : α) (session : Session) :
    outcome (pure a) session = .ok (a, session) := rfl

@[simp] theorem outcome_throw (e : Error) (session : Session) :
    outcome (throw e : Render α) session = .error e := rfl

@[simp] theorem outcome_get (session : Session) :
    outcome (get : Render Session) session = .ok (session, session) := rfl

@[simp] theorem outcome_modify (f : Session → Session) (session : Session) :
    outcome (modify f : Render PUnit) session = .ok ((), f session) := rfl

@[simp] theorem outcome_modifyLayers (f : Stack → Stack) (session : Session) :
    outcome (modifyLayers f) session = .ok ((), { session with layers := f session.layers }) := rfl

theorem outcome_eq_ok_iff {part : Render α} {session after : Session} {a : α} :
    outcome part session = .ok (a, after) ↔ part session = (.ok a, after) := by
  unfold outcome
  cases part session with
  | mk result final =>
    cases result with
    | ok b =>
      constructor <;>
      · rintro ⟨⟩
        rfl
    | error e => constructor <;> rintro ⟨⟩

theorem outcome_eq_error_iff {part : Render α} {session : Session} {e : Error} :
    outcome part session = .error e ↔ (part session).1 = .error e := by
  unfold outcome
  cases part session with
  | mk result final => cases result <;> simp

theorem outcome_bind (part : Render α) (f : α → Render β) (session : Session) :
    outcome (part >>= f) session =
      (outcome part session).bind fun p => outcome (f p.1) p.2 := by
  have key : (part >>= f) session = ExceptT.bindCont f (part session).1 (part session).2 := rfl
  unfold outcome
  rw [key]
  cases hp : part session with
  | mk result session' =>
    cases result with
    | ok a => rfl
    | error e => rfl

theorem outcome_entering (name : Text) (part : Render Unit) (session : Session) :
    outcome (entering name part) session =
      (outcome part (session.entered name)).map fun p =>
        (p.1, { p.2 with active := p.2.active.tail }) := by
  unfold outcome entering
  rw [← Session.entered]
  cases part (session.entered name) with
  | mk result after => cases result <;> rfl

/-- The outcome of a walk that stores lines in a layer. -/
theorem outcome_transient (walk : Walker) (chain : Chain) (name : Text) (layer : Layer)
    (session : Session) {result : Except Error (List Line)}
    (hlen : ∀ out, result = .ok out → out.length = layer.lines.length)
    (h : ∀ full, session.layers.contains full = false →
      outcome (walk (full :: chain))
          { session with layers := session.layers.insert full layer } =
        result.map fun out => ((),
          { session with layers := session.layers.insert full layer }.write full 0 out)) :
    outcome (transient walk chain name layer) session =
      result.map fun out => (Nesting.outText out, session) := by
  generalize hf : Stack.fullName (some (layer.kind.label?.getD "layer".toList))
    (session.layers.freshName (layer.kind.label?.getD "layer".toList) name) = full at h
  have hfree : session.layers.contains full = false := by
    rw [← hf]
    exact Stack.contains_freshName ..
  have hw := h full hfree
  unfold outcome at hw ⊢
  unfold transient
  simp only [hf]
  cases hres : walk (full :: chain)
    { session with layers := session.layers.insert full layer } with
  | mk ended after =>
    rw [hres] at hw
    cases ended with
    | error e =>
      cases result with
      | error e' => simpa [Except.map] using hw
      | ok out => cases hw
    | ok u =>
      cases result with
      | error e' => cases hw
      | ok out =>
        obtain rfl : after =
            { session with layers := session.layers.insert full layer }.write full 0 out := by
          simpa [Except.map] using hw
        have hget : ((session.layers.insert full layer).write full 0 out).get? full =
            some { layer with lines := out } := by
          rw [Stack.get?_write, if_pos rfl, Stack.get?_insert_self, Option.map_some,
            Layer.writeFrom_zero _ (hlen out rfl)]
        have herase : ((session.layers.insert full layer).write full 0 out).erase full =
            session.layers := Stack.erase_insert hfree ..
        simp only [Except.map, Session.write, hget, herase]
        rfl

/-! ## Walking a layer -/

variable {engine : Engine} {context : Context}

/-- The walk of a layer handles its lines, with the layer counted among those being walked. -/
theorem outcome_walk_of_get? {session : Session} {name : Text} {layer : Layer}
    (h : session.layers.get? name = some layer) (depth : Nat) (outer : Chain) :
    outcome (walk engine context (depth + 1) (name :: outer)) session =
      (outcome (handleFrom engine context (walk engine context depth) (name :: outer) name 0
        layer.lines) (session.entered name)).map fun p =>
          ((), { p.2 with active := p.2.active.tail }) := by
  rw [walk, outcome_entering, outcome_bind, outcome_get]
  simp only [Except.bind, Session.layers_entered, h]

theorem outcome_walk_eq_ok_iff {session after : Session} {name : Text} {layer : Layer}
    (h : session.layers.get? name = some layer) {depth : Nat} {outer : Chain} :
    outcome (walk engine context (depth + 1) (name :: outer)) session = .ok ((), after) ↔
      ∃ last, outcome (handleFrom engine context (walk engine context depth) (name :: outer) name 0
          layer.lines) (session.entered name) = .ok ((), last) ∧
        after = { last with active := last.active.tail } := by
  rw [outcome_walk_of_get? h, Except.map_eq_ok_iff]
  constructor
  · rintro ⟨⟨⟨⟩, last⟩, hlast, hafter⟩
    exact ⟨last, hlast, (Prod.mk.inj hafter).2.symm⟩
  · rintro ⟨last, hlast, rfl⟩
    exact ⟨((), last), hlast, rfl⟩

/-- Nothing happens in the walk of a layer that is gone. -/
theorem outcome_walk_of_none {session : Session} {name : Text}
    (h : session.layers.get? name = none) (depth : Nat) (outer : Chain) :
    outcome (walk engine context (depth + 1) (name :: outer)) session = .ok ((), session) := by
  rw [walk, outcome_entering, outcome_bind, outcome_get]
  simp only [Except.bind, Session.layers_entered, h]
  rfl

/-! ## Loading a template -/

theorem outcome_walkParents_of_empty {session : Session} (h : session.pending = [])
    (depth count : Nat) :
    outcome (walkParents engine context depth count) session = .ok ((), session) := by
  cases count with
  | zero =>
    rw [walkParents, outcome_bind, outcome_get]
    simp [Except.bind, h]
  | succ count =>
    rw [walkParents, outcome_bind, outcome_get]
    simp only [Except.bind, h]
    rfl

theorem outcome_walkParents_zero {session : Session} {name : Text} {rest : List Text}
    (h : session.pending = name :: rest) (depth : Nat) :
    outcome (walkParents engine context depth 0) session = .error .tooDeep := by
  rw [walkParents, outcome_bind, outcome_get]
  simp only [Except.bind, h]
  rfl

theorem outcome_walkParents_cons {session : Session} {name : Text} {rest : List Text}
    (h : session.pending = name :: rest) (depth count : Nat) :
    outcome (walkParents engine context depth (count + 1)) session =
      (outcome (walk engine context depth (name :: session.active))
        { session with pending := rest }).bind fun p =>
          outcome (walkParents engine context depth count) p.2 := by
  rw [walkParents, outcome_bind, outcome_get]
  simp only [Except.bind, h]
  rw [outcome_bind, outcome_modify]
  simp only [Except.bind]
  rw [outcome_bind, outcome_get]
  simp only [Except.bind]
  rw [outcome_bind]
  rfl

/-- The load of a template: the walk of the template itself, and then those of the parents. -/
theorem outcome_load_eq (depth : Nat) (name : Text) (session : Session) :
    outcome (load engine context depth name) session =
      (engine.loadLines name []).bind fun lines =>
        (outcome (walk engine context depth (mainName :: session.active))
          (session.loading lines)).bind fun p =>
            outcome (walkParents engine context depth depth)
              { p.2 with layers := p.2.layers.clean mainName } := by
  unfold load source
  rw [outcome_bind]
  cases engine.loadLines name [] with
  | error e => rfl
  | ok lines =>
    simp only [outcome_pure, Except.bind]
    rw [outcome_bind, outcome_modifyLayers]
    simp only [Except.bind]
    rw [outcome_bind, outcome_get]
    simp only [Except.bind]
    rw [outcome_bind]
    rfl

theorem outcome_load_eq_ok_iff {depth : Nat} {name : Text} {session final : Session} :
    outcome (load engine context depth name) session = .ok ((), final) ↔
      ∃ lines after, engine.loadLines name [] = .ok lines ∧
        outcome (walk engine context depth (mainName :: session.active)) (session.loading lines) =
          .ok ((), after) ∧
        outcome (walkParents engine context depth depth)
          { after with layers := after.layers.clean mainName } = .ok ((), final) := by
  rw [outcome_load_eq, Except.bind_eq_ok_iff]
  constructor
  · rintro ⟨lines, hl, h⟩
    obtain ⟨⟨⟨⟩, after⟩, hw, hp⟩ := Except.bind_eq_ok_iff.1 h
    exact ⟨lines, after, hl, hw, hp⟩
  · rintro ⟨lines, after, hl, hw, hp⟩
    exact ⟨lines, hl, Except.bind_eq_ok_iff.2 ⟨((), after), hw, hp⟩⟩

end Render

namespace Engine

variable {engine : Engine} {context : Context} {name : Text}

/-- **A page is that of the session** in which the load of its template ends. -/
theorem renderWithin_eq_outcome (depth : Nat) :
    engine.renderWithin depth name context =
      (Render.outcome (Render.load engine context depth name) {}).map fun p => p.2.page := by
  have hrun : (Render.load engine context depth name).run.run {} =
    Render.load engine context depth name {} := rfl
  unfold renderWithin Render.outcome
  rw [hrun]
  cases Render.load engine context depth name {} with
  | mk result after => cases result <;> rfl

theorem render_eq_outcome (name : Text) :
    engine.render name context =
      (Render.outcome (Render.load engine context engine.depthLimit name) {}).map
        fun p => p.2.page :=
  renderWithin_eq_outcome engine.depthLimit

theorem renderWithin_eq_error_iff {depth : Nat} {e : Error} :
    engine.renderWithin depth name context = .error e ↔
      Render.outcome (Render.load engine context depth name) {} = .error e := by
  rw [renderWithin_eq_outcome, Except.map_eq_error_iff]

end Engine

end Stencil
