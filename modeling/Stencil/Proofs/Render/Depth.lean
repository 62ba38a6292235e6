import Stencil.Proofs.Render.Ending

/-!
# The depth of a render

How deep layers may nest is given before a render starts. A render that ends within a depth ends in
the same way within every greater one (`walk_under`, `load_under`): nothing looks at the depth
but the walk that has none left. `Engine.Returns` is what a render comes to within whatever depth is
enough for it, and it comes to one thing only (`Returns.unique`).
-/

namespace Stencil

namespace Render

variable {α β : Type}

/-- Whenever the first part of a render is not too deep, the second one does the same. -/
def Under (part part' : Render α) : Prop :=
  ∀ session, (part session).1 ≠ .error .tooDeep → part' session = part session

namespace Under

theorem refl (part : Render α) : Under part part := fun _ _ => rfl

theorem trans {p q r : Render α} (h : Under p q) (h' : Under q r) : Under p r := by
  intro session hne
  have hq := h session hne
  rw [h' session (by rwa [hq]), hq]

theorem outcome_eq {part part' : Render α} (h : Under part part') {session : Session}
    (hne : outcome part session ≠ .error .tooDeep) :
    outcome part' session = outcome part session := by
  rw [outcome, outcome, h session fun hdeep => hne (outcome_eq_error_iff.2 hdeep)]

theorem outcome_ok {part part' : Render α} (h : Under part part') {session : Session}
    {p : α × Session} (hp : outcome part session = .ok p) : outcome part' session = .ok p := by
  rw [h.outcome_eq (by simp [hp]), hp]

theorem bind {part part' : Render α} {f f' : α → Render β} (h : Under part part')
    (hf : ∀ a, Under (f a) (f' a)) : Under (part >>= f) (part' >>= f') := by
  intro session hne
  cases hp : part session with
  | mk result after =>
    cases result with
    | ok a =>
      have hp' : part' session = (.ok a, after) := by rw [h session (by simp [hp]), hp]
      rw [bind_of_ok hp] at hne ⊢
      rw [bind_of_ok hp', hf a after hne]
    | error e =>
      rw [bind_of_error hp] at hne ⊢
      have he : e ≠ .tooDeep := fun h => hne (congrArg Except.error h)
      have hp' : part' session = (.error e, after) := by rw [h session (by simpa [hp] using he), hp]
      rw [bind_of_error hp']

theorem ite {p p' q q' : Render α} {c : Bool} (h : Under p p') (h' : Under q q') :
    Under (if c then p else q) (if c then p' else q') := by
  cases c
  · exact h'
  · exact h

theorem entering (name : Text) {part part' : Render Unit} (h : Under part part') :
    Under (entering name part) (Render.entering name part') := by
  intro session hne
  unfold Render.entering at hne ⊢
  rw [h _ hne]

theorem abandoning {part part' : Render α} (h : Under part part') :
    Under (abandoning part) (Render.abandoning part') := by
  intro session hne
  unfold Render.abandoning at hne ⊢
  rw [h _ hne]

end Under

section Walkers

variable {engine : Engine} {context : Context} {walker walker' : Walker}
  (h : ∀ chain, Under (walker chain) (walker' chain))
include h

theorem transient_under (chain : Chain) (name : Text) (layer : Layer) :
    Under (transient walker chain name layer) (transient walker' chain name layer) := by
  intro session hne
  simp only [transient_apply] at hne ⊢
  rw [h]
  intro hdeep
  rw [hdeep] at hne
  exact hne rfl

theorem included_under (chain : Chain) (name : Text) :
    Under (included engine walker chain name) (included engine walker' chain name) := by
  unfold included
  split
  · exact .refl _
  · split
    · exact .refl _
    · exact (transient_under h chain _ _).abandoning

theorem splice_under (chain : Chain) (tags : List (Tag × Text)) :
    Under (splice engine walker chain tags) (splice engine walker' chain tags) := by
  induction tags with
  | nil => exact .refl _
  | cons tag rest ih =>
    exact ih.bind fun _ => (included_under h chain _).bind fun _ => .refl _

theorem apply_under (chain : Chain) (line : Line) (d : Directive) :
    Under (apply engine context walker chain line d) (apply engine context walker' chain line d) := by
  cases d with
  | includes => exact (splice_under h chain _).bind fun _ => .refl _
  | _ => exact .refl _

theorem dispatch_under (chain : Chain) (ds : List Directive) (line : Line) :
    Under (dispatch engine context walker chain ds line)
      (dispatch engine context walker' chain ds line) := by
  induction ds generalizing line with
  | nil => exact .refl _
  | cons d ds ih =>
    refine (Under.refl _).bind fun session => .ite (.refl _) (.ite ?_ ?_)
    · exact (apply_under h chain line d).bind fun _ => ih _
    · exact (Under.refl _).bind fun _ => ih _

theorem endBlock_under (chain : Chain) (name : Text) (body : List Line) (line : Line) :
    Under (endBlock walker chain name body line) (endBlock walker' chain name body line) :=
  (transient_under h chain _ _).bind fun _ => .refl _

theorem iterations_under (chain : Chain) (header : LoopHeader) (body : List Line) (position : Nat)
    (keys : List Text) :
    Under (iterations context walker chain header body position keys)
      (iterations context walker' chain header body position keys) := by
  induction keys generalizing position with
  | nil => exact .refl _
  | cons key keys ih =>
    exact (transient_under h chain _ _).bind fun _ => (ih _).bind fun _ => .refl _

theorem endLoop_under (chain : Chain) (header : LoopHeader) (body : List Line) (line : Line) :
    Under (endLoop context walker chain header body line)
      (endLoop context walker' chain header body line) := by
  unfold endLoop
  split
  · exact .refl _
  · exact (iterations_under h chain header body 0 _).bind fun _ => .refl _

theorem endCondition_under (chain : Chain) (condition : Text) (body : List Line) (line : Line) :
    Under (endCondition context walker chain condition body line)
      (endCondition context walker' chain condition body line) := by
  unfold endCondition
  split
  · exact (transient_under h chain _ _).bind fun _ => .refl _
  · exact .refl _
  · exact .refl _

theorem close_under (chain : Chain) (body : List Line) (line : Line) (construct : Construct) :
    Under (close context walker chain body line construct)
      (close context walker' chain body line construct) := by
  cases construct with
  | block name => exact endBlock_under h chain name body line
  | loop variableName collection => exact endLoop_under h chain ⟨variableName, collection⟩ body line
  | condition expression => exact endCondition_under h chain expression body line

theorem handle_under (chain : Chain) (line : Line) :
    Under (handle engine context walker chain line) (handle engine context walker' chain line) := by
  refine (Under.refl _).bind fun session => ?_
  cases session.capture with
  | none => exact dispatch_under h chain _ line
  | some capture =>
    simp only
    split
    · exact .refl _
    · exact (Under.refl _).bind fun _ => close_under h chain _ line _

theorem handleFrom_under (chain : Chain) (name : Text) (position : Nat) (lines : List Line) :
    Under (handleFrom engine context walker chain name position lines)
      (handleFrom engine context walker' chain name position lines) := by
  induction lines generalizing position with
  | nil => exact .refl _
  | cons line lines ih =>
    exact (handle_under h chain line).bind fun _ => (Under.refl _).bind fun _ => ih _

end Walkers

section Depth

variable (engine : Engine) (context : Context)

theorem walkParents_of_empty {session : Session} (h : session.pending = []) (depth count : Nat) :
    walkParents engine context depth count session = (.ok (), session) := by
  have hget : (get : Render Session) session = (.ok session, session) := rfl
  cases count with
  | zero =>
    rw [walkParents, bind_of_ok hget, h]
    rfl
  | succ count =>
    rw [walkParents, bind_of_ok hget, h]
    rfl

theorem walkParents_zero {session : Session} {name : Text} {rest : List Text}
    (h : session.pending = name :: rest) (depth : Nat) :
    (walkParents engine context depth 0 session).1 = .error .tooDeep := by
  have hget : (get : Render Session) session = (.ok session, session) := rfl
  rw [walkParents, bind_of_ok hget, h]
  rfl

/-- **A walk that ends** ends in the same way within a greater depth. -/
theorem walk_under_succ (depth : Nat) (chain : Chain) :
    Under (walk engine context depth chain) (walk engine context (depth + 1) chain) := by
  induction depth generalizing chain with
  | zero =>
    intro session hne
    exact absurd rfl hne
  | succ depth ih =>
    cases chain with
    | nil => exact .refl _
    | cons name outer =>
      refine .entering name (.bind (.refl _) fun session => ?_)
      split
      · exact .refl _
      · exact handleFrom_under ih _ _ _ _

theorem walk_under {depth depth' : Nat} (h : depth ≤ depth') (chain : Chain) :
    Under (walk engine context depth chain) (walk engine context depth' chain) := by
  induction h with
  | refl => exact .refl _
  | step _ ih => exact ih.trans (walk_under_succ engine context _ chain)

theorem walkParents_under {depth depth' count count' : Nat} (h : depth ≤ depth')
    (hc : count ≤ count') :
    Under (walkParents engine context depth count) (walkParents engine context depth' count') := by
  induction count generalizing count' with
  | zero =>
    intro session hne
    cases hp : session.pending with
    | nil =>
      rw [walkParents_of_empty engine context hp, walkParents_of_empty engine context hp]
    | cons name rest => exact absurd (walkParents_zero engine context hp depth) hne
  | succ count ih =>
    obtain ⟨count', rfl⟩ : ∃ c, count' = c + 1 := ⟨count' - 1, by omega⟩
    refine (Under.refl _).bind fun session => ?_
    cases session.pending with
    | nil => exact .refl _
    | cons name rest =>
      refine (Under.refl _).bind fun _ => (Under.refl _).bind fun entered => ?_
      exact (walk_under engine context h _).bind fun _ => ih (by omega)

/-- **A load that ends** ends in the same way within a greater depth. -/
theorem load_under {depth depth' : Nat} (h : depth ≤ depth') (name : Text) :
    Under (load engine context depth name) (load engine context depth' name) := by
  refine (Under.refl _).bind fun lines => (Under.refl _).bind fun _ => (Under.refl _).bind fun s => ?_
  refine (walk_under engine context h _).bind fun _ => (Under.refl _).bind fun _ => ?_
  exact walkParents_under engine context h h

end Depth

end Render

namespace Engine

/-- What the render of a template comes to, within whatever depth is enough for it. -/
def Returns (engine : Engine) (name : Text) (context : Context) (result : Except Error Text) :
    Prop :=
  ∃ depth, engine.renderWithin depth name context = result ∧ result ≠ .error .tooDeep

variable {engine : Engine} {name : Text} {context : Context}

theorem renderWithin_eq {depth depth' : Nat} (h : depth ≤ depth')
    (hne : engine.renderWithin depth name context ≠ .error .tooDeep) :
    engine.renderWithin depth' name context = engine.renderWithin depth name context := by
  have hload : Render.outcome (Render.load engine context depth name) {} ≠ .error .tooDeep :=
    fun hdeep => hne (renderWithin_eq_error_iff.2 hdeep)
  rw [renderWithin_eq_outcome, renderWithin_eq_outcome,
    (Render.load_under engine context h name).outcome_eq hload]

/-- **A render comes to one thing**, however deep it may go. -/
theorem Returns.unique {result result' : Except Error Text}
    (h : engine.Returns name context result) (h' : engine.Returns name context result') :
    result = result' := by
  obtain ⟨depth, rfl, hne⟩ := h
  obtain ⟨depth', rfl, hne'⟩ := h'
  rcases Nat.le_total depth depth' with hle | hle
  · exact (renderWithin_eq hle hne).symm
  · exact renderWithin_eq hle hne'

end Engine

end Stencil
