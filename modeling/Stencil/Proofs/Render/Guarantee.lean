import Stencil.Proofs.Render.Handling

/-!
# What every part of a render guarantees

A render changes its session in a few ways only: a capture is opened, filled or closed, a parent is
taken in, the slot of a layer that is not being walked is filled, and a layer is put on top of the
stack, walked, and taken off again. A relation between sessions that holds of each of these steps,
and of steps one after the other (`Render.Guarantee`), holds of every part of a render, whether it
fails or not. There is one lemma for each part, and the induction on the depth is in
`Guarantee.walk`.

The relation depends on the chain of layers that are being walked. What a walk does to its own layer
is said apart (`Render.Walked`): the lines of the layer are handled, and stored.
-/

namespace Stencil

namespace Render

variable {α β : Type} {engine : Engine} {context : Context} {walker : Walker} {chain : Chain}
  {name : Text} {session between after : Session} {G : Chain → Session → Session → Prop}

/-- **Lines of a layer** are handled one after the other, and stored. -/
inductive Course (G : Chain → Session → Session → Prop) (name : Text) (chain : Chain)
    (session : Session) : Session → Prop
  | start : Course G name chain session session
  | handled {between after : Session} (h : Course G name chain session between)
    (hg : G chain between after) : Course G name chain session after
  | stored {between : Session} (h : Course G name chain session between) (position : Nat)
    (line : Line) : Course G name chain session (between.write name position [line])

/-- **The walk of a layer** within the walks of others. -/
def Walked (G : Chain → Session → Session → Prop) (name : Text) (outer : Chain)
    (session after : Session) : Prop :=
  ∃ last, Course G name (name :: outer) (session.entered name) last ∧
    after = { last with active := last.active.tail }

/-- **A relation between sessions that every step keeps**, for the layers being walked. -/
structure Guarantee (engine : Engine) (G : Chain → Session → Session → Prop) : Prop where
  refl (chain : Chain) (session : Session) : G chain session session
  trans {chain : Chain} {session between after : Session} (h : G chain session between)
    (h' : G chain between after) : G chain session after
  capturing (chain : Chain) (session : Session) (capture : Option Capture) :
    G chain session { session with capture }
  refused (chain : Chain) {session : Session} {parent : Text} {e : Error}
    (hx : parent ∉ session.extended) (hl : engine.loadLines parent [] = .error e) :
    G chain session { session with extended := parent :: session.extended }
  taking (chain : Chain) {session : Session} {parent : Text} {lines : List Text}
    (hx : parent ∉ session.extended) (hl : engine.loadLines parent [] = .ok lines) :
    G chain session (session.taking parent lines)
  filling {chain : Chain} {session : Session} {name layer : Text} {slot : Slot}
    (h : slot? session.layers chain name = some (layer, slot)) (content : Text) :
    G chain session
      { session with layers := session.layers.modify layer fun l => l.fillSlot slot content }
  transient {chain : Chain} {session after : Session} {name : Text} {layer : Layer}
    (hk : layer.kind ≠ .parent)
    (h : Walked G (session.transientName name layer) chain (session.topped name layer) after) :
    G chain session (after.removing (session.transientName name layer))

/-- The relation holds of the session before and the one after part of a render, however it ends. -/
def Guarantees (G : Chain → Session → Session → Prop) (chain : Chain) (part : Render α)
    (session : Session) : Prop :=
  Ends part session (fun _ after => G chain session after) (fun _ after => G chain session after)

theorem Course.mono {G' : Chain → Session → Session → Prop}
    (hG : ∀ {chain session after}, G chain session after → G' chain session after)
    (h : Course G name chain session after) : Course G' name chain session after := by
  induction h with
  | start => exact .start
  | handled _ hg ih => exact ih.handled (hG hg)
  | stored _ position line ih => exact ih.stored position line

theorem Walked.mono {G' : Chain → Session → Session → Prop}
    (hG : ∀ {chain session after}, G chain session after → G' chain session after) {outer : Chain}
    (h : Walked G name outer session after) : Walked G' name outer session after :=
  let ⟨last, hcourse, heq⟩ := h
  ⟨last, hcourse.mono hG, heq⟩

/-- **Two guarantees together.** -/
theorem Guarantee.and {G' : Chain → Session → Session → Prop} (hG : Guarantee engine G)
    (hG' : Guarantee engine G') :
    Guarantee engine fun chain session after =>
      G chain session after ∧ G' chain session after where
  refl chain session := ⟨hG.refl chain session, hG'.refl chain session⟩
  trans h h' := ⟨hG.trans h.1 h'.1, hG'.trans h.2 h'.2⟩
  capturing chain session capture :=
    ⟨hG.capturing chain session capture, hG'.capturing chain session capture⟩
  refused chain _ _ _ hx hl := ⟨hG.refused chain hx hl, hG'.refused chain hx hl⟩
  taking chain _ _ _ hx hl := ⟨hG.taking chain hx hl, hG'.taking chain hx hl⟩
  filling hs content := ⟨hG.filling hs content, hG'.filling hs content⟩
  transient hk h :=
    ⟨hG.transient hk (h.mono fun h => h.1), hG'.transient hk (h.mono fun h => h.2)⟩

/-- The list of the layers being walked is restored. -/
theorem guarantee_active (engine : Engine) :
    Guarantee engine fun _ session after => after.active = session.active where
  refl _ _ := rfl
  trans h h' := h'.trans h
  capturing _ _ _ := rfl
  refused _ _ _ _ _ _ := rfl
  taking _ _ _ _ _ _ := rfl
  filling _ _ := rfl
  transient := by
    rintro chain session _ name layer - ⟨last, hcourse, rfl⟩
    have hactive : last.active =
        ((session.topped name layer).entered (session.transientName name layer)).active := by
      induction hcourse with
      | start => rfl
      | handled _ hg ih => exact hg.trans ih
      | stored _ _ _ ih => exact ih
    exact congrArg List.tail hactive

namespace Guarantee

variable (hG : Guarantee engine G)
include hG

theorem pure (a : α) (session : Session) : Guarantees G chain (pure a) session :=
  Ends.pure (hG.refl chain session)

theorem throw (e : Error) (session : Session) :
    Guarantees G chain (throw e : Render α) session :=
  Ends.throw (hG.refl chain session)

/-- **Two parts one after the other.** -/
theorem bind {part : Render α} {f : α → Render β} (h : Guarantees G chain part session)
    (hf : ∀ a after, Guarantees G chain (f a) after) : Guarantees G chain (part >>= f) session := by
  refine Ends.bind (Ends.mono h (fun a between hb => ?_) fun _ _ hb => hb)
  exact (hf a between).mono (fun _ _ ha => hG.trans hb ha) fun _ _ ha => hG.trans hb ha

theorem inherit (line : Line) (session : Session) :
    Guarantees G chain (inherit engine line) session := by
  unfold Render.inherit
  split
  · exact hG.pure _ _
  · next tag _ =>
    refine Ends.get_bind ?_
    cases hx : session.extended.contains (unquote tag.argument) with
    | true => exact Ends.bind (Ends.throw (hG.refl chain session))
    | false =>
      have hnew : unquote tag.argument ∉ session.extended := by simpa using hx
      refine Ends.bind (Ends.modify (Ends.bind ?_))
      unfold source
      cases hl : engine.loadLines (unquote tag.argument) [] with
      | error e => exact Ends.throw (hG.refused chain hnew hl)
      | ok lines => exact Ends.pure (Ends.bind (Ends.modify (Ends.pure (hG.taking chain hnew hl))))

theorem beginCapture (construct : Construct) (line : Line) (session : Session) :
    Guarantees G chain (do Render.beginCapture construct; return line) session := by
  refine hG.bind ?_ fun _ _ => hG.pure _ _
  unfold Render.beginCapture
  refine Ends.get_bind (Ends.bind ?_)
  cases Capture.begin session.capture construct with
  | error e => exact Ends.throw (hG.refl chain session)
  | ok capture => exact Ends.pure (Ends.modify (hG.capturing chain session (some capture)))

section Walker

variable (hw : ∀ (name : Text) (outer : Chain) (session : Session),
  Ends (walker (name :: outer)) session (fun _ after => Walked G name outer session after)
    (fun _ after => Walked G name outer session after))
include hw

theorem transient_part {layer : Layer} (hk : layer.kind ≠ .parent) (name : Text)
    (session : Session) :
    Guarantees G chain (Render.transient walker chain name layer) session := by
  refine Ends.transient ?_
  rintro full rfl
  exact (hw _ chain _).mono (fun _ _ ht _ => hG.transient hk ht) fun _ _ ht => hG.transient hk ht

theorem included (name : Text) (session : Session) :
    Guarantees G chain (included engine walker chain name) session := by
  unfold Render.included
  split
  · exact hG.pure _ _
  · split
    · exact hG.pure _ _
    · refine Ends.abandoning (Ends.mono (hG.transient_part hw (by simp [Layer.ofSource]) name session)
        (fun _ after ha => ?_) fun _ after ha => ?_)
      all_goals exact hG.trans ha (hG.capturing chain after none)

theorem splice (tags : List (Tag × Text)) (session : Session) :
    Guarantees G chain (splice engine walker chain tags) session := by
  induction tags with
  | nil => exact hG.pure _ _
  | cons entry rest ih =>
    refine hG.bind ih fun _ after => hG.bind (hG.included hw _ after) fun _ after' => hG.pure _ _

theorem apply (line : Line) (d : Directive) (session : Session) :
    Guarantees G chain (apply engine context walker chain line d) session := by
  cases d with
  | inherits => exact hG.inherit line session
  | includes => exact hG.bind (hG.splice hw _ session) fun _ after => hG.pure _ _
  | asset | route | interpolation => exact hG.pure _ _
  | block | loop | condition =>
    rw [Render.apply]
    split
    · exact hG.pure _ _
    · exact hG.beginCapture _ _ session

theorem dispatch (ds : List Directive) (line : Line) (session : Session) :
    Guarantees G chain (dispatch engine context walker chain ds line) session := by
  induction ds generalizing line session with
  | nil => exact hG.pure _ _
  | cons d ds ih =>
    refine Ends.get_bind ?_
    split
    · exact hG.pure _ _
    · split
      · exact hG.bind (hG.apply hw line d session) fun line' after => ih line' after
      · exact Ends.bind (Ends.pure (ih line session))

/-- A block that is closed may fill a slot of a layer that is not being walked. -/
theorem endBlock (name : Text) (body : List Line) (line : Line) (session : Session) :
    Guarantees G chain (endBlock walker chain name body line) session := by
  refine hG.bind (hG.transient_part hw (by simp) name session) fun content after => ?_
  refine Ends.get_bind ?_
  split
  · exact hG.pure _ _
  · split
    · next hslot => exact Ends.bind (Ends.modifyLayers (Ends.pure (hG.filling hslot content)))
    · exact hG.pure _ _

theorem iterations (header : LoopHeader) (body : List Line) (position : Nat) (keys : List Text)
    (session : Session) :
    Guarantees G chain (iterations context walker chain header body position keys) session := by
  induction keys generalizing position session with
  | nil => exact hG.pure _ _
  | cons key rest ih =>
    exact hG.bind (hG.transient_part hw (by simp) _ session) fun _ after =>
      hG.bind (ih _ after) fun _ after' => hG.pure _ _

theorem close (body : List Line) (line : Line) (construct : Construct) (session : Session) :
    Guarantees G chain (close context walker chain body line construct) session := by
  cases construct with
  | block name => exact hG.endBlock hw name body line session
  | loop variableName collection =>
    rw [Render.close]
    unfold endLoop
    split
    · exact hG.throw _ _
    · exact hG.bind (hG.iterations hw _ body 0 _ session) fun _ after => hG.pure _ _
  | condition expression =>
    rw [Render.close]
    unfold endCondition
    split
    · exact hG.bind (hG.transient_part hw (by simp) _ session) fun _ after => hG.pure _ _
    · exact hG.pure _ _
    · exact hG.pure _ _

/-- **A line that is handled.** -/
theorem handle (line : Line) (session : Session) :
    Guarantees G chain (handle engine context walker chain line) session := by
  refine Ends.get_bind ?_
  split
  · exact hG.dispatch hw _ line session
  · split
    · exact Ends.bind (Ends.modify (Ends.pure (hG.capturing chain session _)))
    · next body _ =>
      refine Ends.bind (Ends.modify ((hG.close hw body line _ _).mono ?_ ?_))
      · exact fun _ _ ha => hG.trans (hG.capturing chain session none) ha
      · exact fun _ _ ha => hG.trans (hG.capturing chain session none) ha

theorem handleFrom (position : Nat) (lines : List Line) (h : Course G name chain session between) :
    Ends (handleFrom engine context walker chain name position lines) between
      (fun _ after => Course G name chain session after)
      (fun _ after => Course G name chain session after) := by
  induction lines generalizing position between with
  | nil => exact Ends.pure h
  | cons line rest ih =>
    refine Ends.bind (Ends.mono (hG.handle hw line between) (fun line' after ha => ?_)
      fun _ _ ha => h.handled ha)
    exact Ends.bind (Ends.modifyLayers (ih _ ((h.handled ha).stored position line')))

end Walker

/-- **A walk**, however deep it goes. -/
theorem walk (depth : Nat) (name : Text) (outer : Chain) (session : Session) :
    Ends (walk engine context depth (name :: outer)) session
      (fun _ after => Walked G name outer session after)
      (fun _ after => Walked G name outer session after) := by
  induction depth generalizing name outer session with
  | zero => exact Ends.throw ⟨session.entered name, .start, rfl⟩
  | succ depth ih =>
    refine Ends.entering (Ends.get_bind ?_)
    split
    · exact Ends.pure ⟨_, .start, rfl⟩
    · exact (hG.handleFrom ih 0 _ .start).mono (fun _ last hl => ⟨last, hl, rfl⟩)
        fun _ last hl => ⟨last, hl, rfl⟩

/-- **A walk that a line starts** begins in a session that the line has come to. -/
theorem starts {depth : Nat} {line : Line} {layer : Layer}
    (h : Starts engine context (Render.walk engine context depth) chain session line name layer
      after) : G chain session after := by
  cases h with
  | closing hc hs =>
    have hreleased : G chain session session.released := hG.capturing chain session none
    cases hs with
    | block => exact hreleased
    | branch => exact hreleased
    | iteration hk hb =>
      exact hG.trans hreleased ((hG.iterations (hG.walk depth) _ _ 0 _ _).of_outcome_ok hb)
  | inclusion hc hr hi ht hb hn hl =>
    have hinherited := (hG.dispatch (hG.walk depth) _ _ _).of_outcome_ok hi
    exact hG.trans hinherited ((hG.splice (hG.walk depth) _ _).of_outcome_ok hb)

end Guarantee

end Render

end Stencil
