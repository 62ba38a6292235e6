import Stencil.Proofs.Termination.Carry

/-!
# The parents that a walk takes in

A session keeps the templates that were extended and the parents that wait for their turn. Both
change in one way only: a line that is handled takes in another parent. `Session.Grows` says so of
two sessions, and names the lines; `grows_walk` says that the walk of a layer makes a session grow
by the lines it comes to.
-/

namespace Stencil

/-- Between the two sessions, parents were taken in one after the other, each of them new, and each
in a session and for a name that `E` holds of. -/
inductive Session.Grows (E : Session → Text → Prop) (session : Session) : Session → Prop
  | same {after : Session} (he : after.extended = session.extended)
    (hp : after.pending = session.pending) : Grows E session after
  | take {between after : Session} {parent : Text} (h : Grows E session between)
    (hE : E between parent) (hx : parent ∉ between.extended)
    (he : after.extended = parent :: between.extended)
    (hp : after.pending = between.pending ++ [parentLayer parent]) : Grows E session after

namespace Session.Grows

variable {E E' : Session → Text → Prop} {session between after after' : Session}

theorem refl (session : Session) : Grows E session session := .same rfl rfl

theorem congr (h : Grows E session after) (he : after'.extended = after.extended)
    (hp : after'.pending = after.pending) : Grows E session after' := by
  cases h with
  | same he' hp' => exact .same (he.trans he') (hp.trans hp')
  | take h hE hx he' hp' => exact .take h hE hx (he.trans he') (hp.trans hp')

theorem trans (h : Grows E session between) (h' : Grows E between after) :
    Grows E session after := by
  induction h' with
  | same he hp => exact h.congr he hp
  | take _ hE hx he hp ih => exact .take ih hE hx he hp

theorem mono (h : Grows E session after) (hE : ∀ s parent, E s parent → E' s parent) :
    Grows E' session after := by
  induction h with
  | same he hp => exact .same he hp
  | take _ h hx he hp ih => exact .take ih (hE _ _ h) hx he hp

end Session.Grows

namespace Render

open Session (Grows)

variable {engine : Engine} {context : Context} {walker : Walker} {chain : Chain}
  {E : Session → Text → Prop} {session after : Session} {line line' : Line} {body : List Line}

/-! ## One line -/

theorem grows_transient {name text : Text} {layer : Layer}
    (hw : ∀ after, outcome (walker (session.transientName name layer :: chain))
      (session.topped name layer) = .ok ((), after) → Grows E (session.topped name layer) after)
    (h : outcome (transient walker chain name layer) session = .ok (text, after)) :
    Grows E session after := by
  rw [outcome_transient_eq] at h
  obtain ⟨⟨⟨⟩, walked⟩, hrun, h⟩ := Except.map_eq_ok_iff.1 h
  have htopped : Grows E session (session.topped name layer) := .same rfl rfl
  have hgrows := htopped.trans (hw walked hrun)
  cases h
  exact hgrows.congr rfl rfl

section Line

variable (htake : ∀ parent, session.TakesIn line parent → E session parent)
  (hw : ∀ {name : Text} {layer : Layer} {started after : Session},
    Starts engine context walker chain session line name layer started →
    outcome (walker (started.transientName name layer :: chain)) (started.topped name layer) =
      .ok ((), after) → Grows E (started.topped name layer) after)

include hw in
/-- The iterations before some key. -/
theorem grows_iterations {header : LoopHeader} {before behind texts : List Text}
    (hc : session.Closes line (.loop header.variableName header.collection) body)
    (hk : loopKeys context header = .ok (before ++ behind))
    (h : outcome (iterations context walker chain header body 0 before) session.released =
      .ok (texts, after)) : Grows E session after := by
  induction before using List.reverseRecOn generalizing behind texts after with
  | nil =>
    cases h
    exact .same rfl rfl
  | append_singleton before key ih =>
    obtain ⟨texts', text, between, hbefore, hlast⟩ := outcome_iterations_snoc h
    rw [List.append_assoc, List.singleton_append] at hk
    rw [Nat.zero_add] at hlast
    exact (ih hk hbefore).trans
      (grows_transient (fun _ => hw (.closing hc (.iteration hk hbefore))) hlast)

include hw in
theorem grows_close {construct : Construct} (hc : session.Closes line construct body)
    (h : outcome (close context walker chain body line construct) session.released =
      .ok (line', after)) : Grows E session after := by
  have hreleased : Grows E session session.released := .same rfl rfl
  cases construct with
  | block name =>
    rw [close] at h
    obtain ⟨text, between, ht, hafter⟩ := exists_of_endBlock h
    have hgrows := hreleased.trans (grows_transient (fun _ => hw (.closing hc .block)) ht)
    exact hgrows.congr (by rw [hafter]) (by rw [hafter])
  | condition expression =>
    rw [close] at h
    rcases of_endCondition h with rfl | ⟨he, text, ht⟩
    · exact hreleased
    · exact hreleased.trans (grows_transient (fun _ => hw (.closing hc (.branch he))) ht)
  | loop variableName collection =>
    rw [close] at h
    obtain ⟨keys, texts, hk, ht⟩ := exists_of_endLoop h
    have hheader : session.Closes line (.loop (LoopHeader.mk variableName collection).variableName
      (LoopHeader.mk variableName collection).collection) body := hc
    have hall : loopKeys context ⟨variableName, collection⟩ = .ok (keys ++ []) := by
      rw [hk, List.append_nil]
    exact grows_iterations hw hheader hall ht

include htake in
/-- The first stage of a line takes in the parent that the line names. -/
theorem grows_inherits (hr : line.rendered = false) (hc : session.capture = none)
    (h : outcome (dispatch engine context walker chain [.inherits] line) session =
      .ok (line', after)) : Grows E session after := by
  rcases of_dispatch_inherits hr hc h with ⟨-, rfl⟩ | ⟨parent, lines, htakes, hx, -, -, rfl⟩
  · exact .refl after
  · exact .take (.refl session) (htake parent htakes) hx rfl rfl

include hw in
/-- Inclusions of a line, from the last one on. -/
theorem grows_splice {inherited : Session} {before behind : List (Tag × Text)} {tail : Text}
    (hc : session.capture = none) (hr : line.rendered = false)
    (hi : outcome (dispatch engine context walker chain [.inherits] line) session =
      .ok (line', inherited))
    (ht : (Pattern.cut (Directive.includes.pattern.scan line'.text)).2 = before ++ behind)
    (h : outcome (splice engine walker chain behind) inherited = .ok (tail, after)) :
    Grows E inherited after := by
  induction behind generalizing before tail after with
  | nil =>
    cases h
    exact .refl inherited
  | cons entry rest ih =>
    rw [splice] at h
    obtain ⟨tail', between, htail, h⟩ := outcome_bind_eq_ok_iff.1 h
    obtain ⟨page, after', hpage, h⟩ := outcome_bind_eq_ok_iff.1 h
    cases h
    rw [← List.singleton_append, ← List.append_assoc] at ht
    refine (ih ht htail).trans ?_
    rw [List.append_assoc, List.singleton_append] at ht
    unfold included at hpage
    split at hpage
    · cases hpage
      exact .refl _
    · next hn =>
      split at hpage
      · cases hpage
        exact .refl _
      · next lines hl =>
        have hstarts := Starts.inclusion hc hr hi ht htail (Bool.eq_false_iff.2 hn) hl
        rw [outcome_abandoning] at hpage
        obtain ⟨p, htr, hpage⟩ := Except.map_eq_ok_iff.1 hpage
        cases hpage
        exact (grows_transient (fun _ => hw hstarts) htr).congr rfl rfl

include htake hw

/-- The session in which a walk starts. -/
theorem grows_starts {name : Text} {layer : Layer} {started : Session}
    (h : Starts engine context walker chain session line name layer started) :
    Grows E session started := by
  cases h with
  | closing hc hs =>
    cases hs with
    | block => exact .same rfl rfl
    | branch => exact .same rfl rfl
    | iteration hk hb => exact grows_iterations hw hc hk hb
  | inclusion hc hr hi ht hb hn hl =>
    rw [← List.singleton_append, ← List.append_assoc] at ht
    exact (grows_inherits htake hr hc hi).trans (grows_splice hw hc hr hi ht hb)

/-- **A line that is handled** makes the session grow by the parent it takes in, and by those of the
walks that it starts. -/
theorem grows_handle
    (h : outcome (handle engine context walker chain line) session = .ok (line', after)) :
    Grows E session after := by
  cases hc : session.capture with
  | none =>
    cases hr : line.rendered with
    | true =>
      rw [outcome_handle_idle hc, outcome_dispatch_rendered _ hr] at h
      cases h
      exact .refl session
    | false =>
      obtain ⟨named, inherited, spliced, included, hi, hs, h⟩ := stages_of_handle hr hc h
      obtain ⟨hr', hc'⟩ := stage_inherits hr hc hi
      have hincluded : Grows E inherited included := by
        rw [outcome_dispatch_single .includes hr' hc'] at hs
        split at hs
        · rw [apply, outcome_includeLine] at hs
          obtain ⟨r, hsp, hs⟩ := Except.map_eq_ok_iff.1 hs
          cases hs
          exact grows_splice hw hc hr hi (List.nil_append _).symm hsp
        · cases hs
          exact .refl inherited
      have hgrows := (grows_inherits htake hr hc hi).trans hincluded
      split at h
      · cases h
        exact hgrows.congr rfl rfl
      · cases h
        exact hgrows
  | some capture =>
    cases hf : capture.feed line with
    | held next =>
      rw [outcome_handle_of_holds ⟨capture, hc, hf⟩] at h
      cases h
      exact .same rfl rfl
    | closed construct body =>
      have hcloses : session.Closes line construct body := ⟨capture, hc, hf⟩
      rw [outcome_handle_of_closes hcloses] at h
      exact grows_close hw hcloses h

end Line

/-! ## A layer -/

/-- A walk comes to a line that takes in the parent, and handles it in the session. -/
def Takes (engine : Engine) (context : Context) (depth : Nat) (chain : Chain) (start : Session)
    (session : Session) (parent : Text) : Prop :=
  ∃ line, Handles engine context depth chain start line session ∧ session.TakesIn line parent

variable {depth : Nat} {start : Session}

/-- What an inner walk takes in, the outer one takes in as well. -/
theorem Takes.inner {name : Text} {layer : Layer} {started : Session} {parent : Text}
    (hc : Comes engine context depth chain start line session)
    (hs : Starts engine context (walk engine context depth) chain session line name layer started)
    (h : Takes engine context depth (started.transientName name layer :: chain)
      (started.topped name layer) after parent) :
    Takes engine context (depth + 1) chain start after parent := by
  obtain ⟨line', hh, ht⟩ := h
  exact ⟨line', .inner hc hs hh, ht⟩

/-- The walks within a depth grow by what they take in. -/
def Growing (engine : Engine) (context : Context) (depth : Nat) : Prop :=
  ∀ {chain : Chain} {start after : Session},
    outcome (walk engine context depth chain) start = .ok ((), after) →
    Grows (Takes engine context depth chain start) start after

/-- The lines of a layer that are handled one after the other, as far as a walk has come. -/
theorem grows_handleFrom (hw : Growing engine context depth) {name : Text} {outer : Chain}
    {layer : Layer} {before behind : List Line} (hg : start.layers.get? name = some layer)
    (hl : layer.lines = before ++ behind)
    (h : outcome (handleFrom engine context (walk engine context depth) (name :: outer) name 0 before)
      (start.entered name) = .ok ((), after)) :
    Grows (Takes engine context (depth + 1) (name :: outer) start) start after := by
  induction before using List.reverseRecOn generalizing behind after with
  | nil =>
    cases h
    exact .same rfl rfl
  | append_singleton before line ih =>
    obtain ⟨line', between, final, hbefore, hhandle, hfinal⟩ := outcome_handleFrom_snoc h
    rw [List.append_assoc, List.singleton_append] at hl
    have hcomes : Comes engine context depth (name :: outer) start line between :=
      .intro hg hl hbefore
    have hgrows := grows_handle (E := Takes engine context (depth + 1) (name :: outer) start)
      (fun parent ht => ⟨line, .own hcomes, ht⟩)
      (fun hs hrun => (hw hrun).mono fun _ _ => Takes.inner hcomes hs) hhandle
    refine ((ih hl hbefore).trans hgrows).congr ?_ ?_ <;> rw [hfinal]

/-- **The walk of a layer** makes the session grow by the parents that the lines it comes to take
in. -/
theorem grows_walk (engine : Engine) (context : Context) (depth : Nat) :
    Growing engine context depth := by
  induction depth with
  | zero =>
    intro chain start after h
    cases h
  | succ depth ih =>
    intro chain start after h
    cases chain with
    | nil =>
      cases h
      exact .refl start
    | cons name outer =>
      cases hget : start.layers.get? name with
      | none =>
        rw [outcome_walk_of_none hget] at h
        cases h
        exact .same rfl rfl
      | some layer =>
        obtain ⟨last, hlines, rfl⟩ := (outcome_walk_eq_ok_iff hget).1 h
        exact (grows_handleFrom ih hget (List.append_nil _).symm hlines).congr rfl rfl

/-- The session in which a walk handles a line has grown by what the walk takes in. -/
theorem grows_of_handles (h : Handles engine context depth chain start line session) :
    Grows (Takes engine context depth chain start) start session := by
  induction h with
  | own hc =>
    obtain ⟨hg, hl, hb⟩ := hc
    exact grows_handleFrom (grows_walk engine context _) hg hl hb
  | @inner depth chain start between started session line line' name layer hc hs _ ih =>
    have hwalk : Growing engine context depth := grows_walk engine context depth
    have hbetween : Grows (Takes engine context (depth + 1) chain start) start between := by
      obtain ⟨hg, hl, hb⟩ := hc
      exact grows_handleFrom hwalk hg hl hb
    have hstarted := grows_starts (E := Takes engine context (depth + 1) chain start)
      (fun parent ht => ⟨line, .own hc, ht⟩)
      (fun hs' hrun => (hwalk hrun).mono fun _ _ => Takes.inner hc hs') hs
    have htopped : Grows (Takes engine context (depth + 1) chain start) started
        (started.topped name layer) := .same rfl rfl
    exact hbetween.trans (hstarted.trans (htopped.trans (ih.mono fun _ _ => Takes.inner hc hs)))

end Render

end Stencil
