import Stencil.Proofs.Render.Outcome

/-!
# How part of a render ends

`Render.Ends` says of the session in which part of a render ends what holds of it if the part
succeeds, and what holds of it if the part fails. There is one rule for each way to put parts
together. A session that outlives an error is seen here and not in `Render.outcome`.
-/

namespace Stencil

/-- The name that a layer gets when it is put on the stack for a while. -/
def Session.transientName (session : Session) (name : Text) (layer : Layer) : Text :=
  let label := layer.kind.label?.getD "layer".toList
  Stack.fullName (some label) (session.layers.freshName label name)

/-- The session with a layer under a name. -/
def Session.placing (session : Session) (name : Text) (layer : Layer) : Session :=
  { session with layers := session.layers.insert name layer }

/-- The session without the layer of a name. -/
def Session.removing (session : Session) (name : Text) : Session :=
  { session with layers := session.layers.erase name }

theorem Session.contains_transientName (session : Session) (name : Text) (layer : Layer) :
    session.layers.contains (session.transientName name layer) = false :=
  Stack.contains_freshName ..

namespace Render

variable {α β : Type}

theorem bind_of_ok {part : Render α} {f : α → Render β} {session after : Session} {a : α}
    (h : part session = (.ok a, after)) : (part >>= f) session = f a after := by
  change ExceptT.bindCont f (part session).1 (part session).2 = _
  rw [h]
  rfl

theorem bind_of_error {part : Render α} {f : α → Render β} {session after : Session} {e : Error}
    (h : part session = (.error e, after)) : (part >>= f) session = (.error e, after) := by
  change ExceptT.bindCont f (part session).1 (part session).2 = _
  rw [h]
  rfl

theorem transient_apply (walk : Walker) (chain : Chain) (name : Text) (layer : Layer)
    (session : Session) :
    transient walk chain name layer session =
      let full := session.transientName name layer
      let ended := walk (full :: chain) (session.placing full layer)
      (ended.1.map fun _ => ((ended.2.layers.get? full).map Layer.render).getD [],
        ended.2.removing full) := rfl

/-- What holds of the session in which part of a render ends. -/
def Ends (part : Render α) (session : Session) (good : α → Session → Prop)
    (bad : Error → Session → Prop) : Prop :=
  match part session with
  | (.ok a, after) => good a after
  | (.error e, after) => bad e after

namespace Ends

variable {part : Render α} {session : Session} {good : α → Session → Prop}
  {bad : Error → Session → Prop}

theorem of_ok (h : Ends part session good bad) {a : α} {after : Session}
    (hp : part session = (.ok a, after)) : good a after := by
  unfold Ends at h
  rwa [hp] at h

theorem of_error (h : Ends part session good bad) {e : Error} {after : Session}
    (hp : part session = (.error e, after)) : bad e after := by
  unfold Ends at h
  rwa [hp] at h

theorem of_outcome_ok (h : Ends part session good bad) {a : α} {after : Session}
    (hp : outcome part session = .ok (a, after)) : good a after :=
  h.of_ok (outcome_eq_ok_iff.1 hp)

theorem mono {good' : α → Session → Prop} {bad' : Error → Session → Prop}
    (h : Ends part session good bad) (hg : ∀ a after, good a after → good' a after)
    (hb : ∀ e after, bad e after → bad' e after) : Ends part session good' bad' := by
  unfold Ends at h ⊢
  split
  · next hp => rw [hp] at h; exact hg _ _ h
  · next hp => rw [hp] at h; exact hb _ _ h

theorem pure {a : α} (h : good a session) : Ends (pure a) session good bad := h

theorem throw {e : Error} (h : bad e session) : Ends (throw e : Render α) session good bad := h

theorem get {good : Session → Session → Prop} (h : good session session) :
    Ends (get : Render Session) session good bad := h

theorem modify {f : Session → Session} {good : PUnit → Session → Prop}
    (h : good () (f session)) : Ends (modify f : Render PUnit) session good bad := h

theorem modifyLayers {f : Stack → Stack} {good : Unit → Session → Prop}
    (h : good () { session with layers := f session.layers }) :
    Ends (modifyLayers f) session good bad := h

theorem bind {f : α → Render β} {good : β → Session → Prop}
    (h : Ends part session (fun a after => Ends (f a) after good bad) bad) :
    Ends (part >>= f) session good bad := by
  unfold Ends
  cases hp : part session with
  | mk result after =>
    cases result with
    | ok a =>
      rw [bind_of_ok hp]
      exact h.of_ok hp
    | error e =>
      rw [bind_of_error hp]
      exact h.of_error hp

theorem get_bind {f : Session → Render β} {good : β → Session → Prop}
    (h : Ends (f session) session good bad) :
    Ends ((MonadState.get : Render Session) >>= f) session good bad :=
  bind (get h)

theorem entering {name : Text} {part : Render Unit} {good : Unit → Session → Prop}
    (h : Ends part (session.entered name)
      (fun u after => good u { after with active := after.active.tail })
      (fun e after => bad e { after with active := after.active.tail })) :
    Ends (entering name part) session good bad := by
  unfold Ends Render.entering at *
  rw [← Session.entered]
  cases hp : part (session.entered name) with
  | mk result after =>
    rw [hp] at h
    cases result <;> exact h

theorem transient {walk : Walker} {chain : Chain} {name : Text} {layer : Layer}
    {good : Text → Session → Prop}
    (h : ∀ full, full = session.transientName name layer →
      Ends (walk (full :: chain)) (session.placing full layer)
        (fun _ after => ∀ text, good text (after.removing full))
        (fun e after => bad e (after.removing full))) :
    Ends (transient walk chain name layer) session good bad := by
  have hw := h _ rfl
  unfold Ends at hw ⊢
  rw [transient_apply]
  simp only
  cases hp : walk (session.transientName name layer :: chain)
    (session.placing (session.transientName name layer) layer) with
  | mk result after =>
    rw [hp] at hw
    cases result with
    | ok u => exact hw _
    | error e => exact hw

theorem abandoning (h : Ends part session (fun a after => good a { after with capture := none })
      (fun e after => bad e { after with capture := none })) :
    Ends (abandoning part) session good bad := by
  unfold Ends Render.abandoning at *
  cases hp : part session with
  | mk result after =>
    rw [hp] at h
    cases result <;> exact h

end Ends

end Render

end Stencil
