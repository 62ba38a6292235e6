import Stencil.Proofs.Render.Failure
import Stencil.Proofs.Termination.Weight

/-!
# Lines that change how loops are nested

The text of an element may put tags into a line of a body (`Iteration.resolve?`). If these tags open
or close loops, the copies of a body are nested in another way than the body
(`Session.Restructures`), and nothing then says that the loops come to an end. A walk is calm if it
comes to no such line, neither in its own layer nor in the layers whose walks it leads to.
-/

namespace Stencil

/-- **The line changes how loops are nested.** -/
inductive Session.Restructures (context : Context) (session : Session) (line : Line) : Prop where
  /-- The line closes a loop of which some iteration opens or closes other loops than the body. -/
  | iteration {header : LoopHeader} {body : List Line} {before behind : List Text} {key : Text}
    (hc : session.Closes line (.loop header.variableName header.collection) body)
    (hk : Render.loopKeys context header = .ok (before ++ key :: behind))
    (hm : ((Render.iteration context header key before.length).expand body).map Line.loopMarks ≠
      body.map Line.loopMarks)
  /-- The line closes another body, and it is consumed although it opens a loop. -/
  | opening {construct : Construct} {body : List Line} (hc : session.Closes line construct body)
    (hd : construct.directive ≠ .loop) (hm : line.loopMarks = (true, false))

namespace Render

variable {engine : Engine} {context : Context} {depth : Nat} {chain : Chain}
  {session after : Session} {line : Line}

/-- The walk comes to no line that changes how loops are nested. -/
def Calm (engine : Engine) (context : Context) (depth : Nat) (chain : Chain) (session : Session) :
    Prop :=
  ∀ line after, Handles engine context depth chain session line after →
    ¬ after.Restructures context line

/-- The line does not change how loops are nested, and neither does a line that it leads to. -/
structure CalmLine (engine : Engine) (context : Context) (depth : Nat) (chain : Chain)
    (session : Session) (line : Line) : Prop where
  keeps : ¬ session.Restructures context line
  calm : ∀ {name : Text} {layer : Layer} {started : Session},
    Starts engine context (walk engine context depth) chain session line name layer started →
    Calm engine context depth (started.transientName name layer :: chain) (started.topped name layer)

theorem Calm.calmLine (h : Calm engine context (depth + 1) chain session)
    (hc : Comes engine context depth chain session line after) :
    CalmLine engine context depth chain after line where
  keeps := h line after (.own hc)
  calm := by
    intro name layer started hs line' final hh
    exact h line' final (.inner hc hs hh)

/-! ## Deeper walks come to the same lines -/

section Deeper

variable {depth' : Nat} (hle : depth ≤ depth')
include hle

theorem Comes.deeper (h : Comes engine context depth chain session line after) :
    Comes engine context depth' chain session line after := by
  obtain ⟨hg, hl, hb⟩ := h
  exact .intro hg hl ((handleFrom_under (walk_under engine context hle) _ _ _ _).outcome_ok hb)

theorem Starts.deeper {name : Text} {layer : Layer}
    (h : Starts engine context (walk engine context depth) chain session line name layer after) :
    Starts engine context (walk engine context depth') chain session line name layer after := by
  have hwalk := walk_under engine context hle
  cases h with
  | closing hc hs =>
    refine .closing hc ?_
    cases hs with
    | block => exact .block
    | branch he => exact .branch he
    | iteration hk hb => exact .iteration hk ((iterations_under hwalk _ _ _ _ _).outcome_ok hb)
  | inclusion hc hr hi ht hb hn hl =>
    exact .inclusion hc hr ((dispatch_under hwalk _ _ _).outcome_ok hi) ht
      ((splice_under hwalk _ _).outcome_ok hb) hn hl

theorem Handles.deeper (h : Handles engine context depth chain session line after) :
    Handles engine context depth' chain session line after := by
  induction h generalizing depth' with
  | own hc =>
    obtain ⟨d, rfl⟩ : ∃ d, depth' = d + 1 := ⟨depth' - 1, by omega⟩
    exact .own (hc.deeper (by omega))
  | inner hc hs _ ih =>
    obtain ⟨d, rfl⟩ : ∃ d, depth' = d + 1 := ⟨depth' - 1, by omega⟩
    exact .inner (hc.deeper (by omega)) (hs.deeper (by omega)) (ih (by omega))

theorem Calm.shallower (h : Calm engine context depth' chain session) :
    Calm engine context depth chain session :=
  fun line after hh => h line after (hh.deeper hle)

theorem ParentTurn.deeper {count count' : Nat} {start : Session} (hc : count ≤ count')
    (h : ParentTurn engine context depth count session chain start) :
    ParentTurn engine context depth' count' session chain start := by
  induction h generalizing count' with
  | first hp =>
    obtain ⟨c, rfl⟩ : ∃ c, count' = c + 1 := ⟨count' - 1, by omega⟩
    exact .first hp
  | later hp hw _ ih =>
    obtain ⟨c, rfl⟩ : ∃ c, count' = c + 1 := ⟨count' - 1, by omega⟩
    exact .later hp ((walk_under engine context hle _).outcome_ok hw) (ih (by omega))

end Deeper

end Render

end Stencil
