import Mathlib.Data.List.Induction
import Stencil.Proofs.Termination.Calm

/-!
# The weight of what is captured

A capture that is open when a layer ends goes on behind the layer, and what it holds may be walked
later. It never weighs more than the lines that were handled, and than what was captured before
(`carries_handle` for one line, `carries_walk` for a layer): a body that is closed comes back as the
iterations of a loop, which weigh less than the loop did, or as it is.
-/

namespace Stencil

namespace Session

/-- The lines that are captured. -/
def held (session : Session) : List Line := (session.capture.map Capture.buffer).getD []

/-- What is captured has been captured line by line. -/
def Grown (session : Session) : Prop :=
  ∀ capture, session.capture = some capture →
    Capture.holdAll { construct := capture.construct } capture.buffer = some capture

/-- **What is captured** weighs at most `bound`, where `outer` loops are closed behind it. -/
structure Carries (rounds outer bound : Nat) (session : Session) : Prop where
  grown : session.Grown
  weight_le : weight rounds outer session.held ≤ bound

variable {session session' : Session} {line : Line} {construct : Construct} {body : List Line}
  {rounds outer bound : Nat} {next : Capture}

theorem held_of_idle (h : session.capture = none) : session.held = [] := by
  rw [held, h]
  rfl

theorem grown_of_idle (h : session.capture = none) : session.Grown := by
  intro capture hc
  rw [h] at hc
  cases hc

theorem Grown.congr (h : session.Grown) (hc : session'.capture = session.capture) :
    session'.Grown := by
  unfold Grown at h ⊢
  rwa [hc]

theorem held_congr (hc : session'.capture = session.capture) : session'.held = session.held := by
  rw [held, hc, held]

theorem Carries.congr (h : session.Carries rounds outer bound)
    (hc : session'.capture = session.capture) : session'.Carries rounds outer bound :=
  ⟨h.grown.congr hc, by rw [held_congr hc]; exact h.weight_le⟩

theorem Carries.mono {bound' : Nat} (h : session.Carries rounds outer bound) (hle : bound ≤ bound') :
    session.Carries rounds outer bound' :=
  ⟨h.grown, Nat.le_trans h.weight_le hle⟩

theorem carries_of_idle (h : session.capture = none) (rounds outer bound : Nat) :
    session.Carries rounds outer bound := by
  refine ⟨grown_of_idle h, ?_⟩
  rw [held_of_idle h]
  exact Nat.zero_le bound

/-- A capture that has just begun holds nothing. -/
theorem carries_of_begun (h : session.capture = some { construct }) (rounds outer bound : Nat) :
    session.Carries rounds outer bound := by
  constructor
  · intro capture hc
    rw [h] at hc
    obtain rfl := Option.some.inj hc
    rfl
  · rw [held, h]
    exact Nat.zero_le bound

theorem grown_of_holds (hg : session.Grown) (h : session.Holds line next) :
    (session.capturing next).Grown ∧ (session.capturing next).held = session.held ++ [line] := by
  obtain ⟨capture, hc, hf⟩ := h
  have hbuffer : next = _ := (Capture.eq_of_feed_held hf).2
  constructor
  · intro capture' hc'
    obtain rfl : next = capture' := Option.some.inj hc'
    have hgrown := Capture.holdAll_append (hg capture hc) [line]
    have hlast : capture.holdAll [line] = some next := by simp only [Capture.holdAll, hf]
    rw [hlast] at hgrown
    rw [hbuffer] at hgrown ⊢
    exact hgrown
  · rw [held, held, hc, capture_capturing, hbuffer]
    rfl

/-- What is closed has been held from the beginning on. -/
theorem Grown.closed (hg : session.Grown) (hc : session.Closes line construct body) :
    session.held = body ∧ ∃ capture, Capture.holdAll { construct } body = some capture ∧
      capture.depth ≠ 0 ∧ capture.feed line = .closed construct body := by
  obtain ⟨capture, hcap, hf⟩ := hc
  obtain ⟨-, rfl, rfl⟩ := Capture.eq_of_feed_closed hf
  have hgrown := hg capture hcap
  refine ⟨by rw [held, hcap]; rfl, capture, hgrown, ?_, hf⟩
  exact (Capture.of_holdAll hgrown Nat.one_ne_zero).2.2

/-- The body of a loop opens as many loops as it closes, so that its copies are inside the same
loops, and it weighs `rounds + 1` times as much inside the loop. -/
theorem Grown.closed_loop {header : LoopHeader} (hg : session.Grown)
    (hc : session.Closes line (.loop header.variableName header.collection) body)
    (rounds outer : Nat) :
    loopsAround outer body = outer ∧
      (rounds + 1) * weight rounds outer body < weight rounds outer (session.held ++ [line]) := by
  obtain ⟨hheld, capture, hhold, hdepth, hf⟩ := hg.closed hc
  obtain ⟨hone, hline⟩ := Capture.loopsAround_of_closed rfl hdepth hf outer []
  have hbody := Capture.loopsAround_of_holdAll rfl Nat.one_ne_zero hhold hone outer
  have hweight := Capture.weight_of_holdAll rfl Nat.one_ne_zero hhold hone rounds outer
  refine ⟨Nat.add_right_cancel hbody, ?_⟩
  rw [hheld, weight_append, hline, loopsAround, hweight]
  exact Nat.lt_add_of_pos_right (weight_lt_cons rounds outer line [])

/-- Another body is inside no fewer loops than what comes behind it. -/
theorem Grown.closed_other {context : Context} (hg : session.Grown)
    (hc : session.Closes line construct body) (hd : construct.directive ≠ .loop)
    (hr : ¬ session.Restructures context line) (rounds outer : Nat) :
    weight rounds outer body < weight rounds outer (session.held ++ [line]) := by
  have hmarks : line.loopMarks ≠ (true, false) := fun hm => hr (.opening hc hd hm)
  have hloops := loopsAround_le_of_marks hmarks outer []
  rw [(hg.closed hc).1, weight_append]
  calc weight rounds outer body
      ≤ weight rounds (loopsAround outer [line]) body := weight_mono rounds hloops body
    _ < weight rounds (loopsAround outer [line]) body + weight rounds outer [line] :=
        Nat.lt_add_of_pos_right (weight_lt_cons rounds outer line [])

end Session

namespace Render

variable {engine : Engine} {context : Context} {rounds depth : Nat} {walker : Walker} {chain : Chain}
  {session after : Session} {line line' : Line} {construct : Construct} {body : List Line}

/-- No loop has more keys than `rounds`. -/
def Rounds (context : Context) (rounds : Nat) : Prop :=
  ∀ header keys, loopKeys context header = .ok keys → keys.length ≤ rounds

theorem outcome_iterations_snoc {header : LoopHeader} {position : Nat} {keys : List Text} {key : Text}
    {texts : List Text}
    (h : outcome (iterations context walker chain header body position (keys ++ [key])) session =
      .ok (texts, after)) :
    ∃ texts' text between, outcome (iterations context walker chain header body position keys)
        session = .ok (texts', between) ∧
      outcome (transient walker chain (header.key ++ '.' :: key)
        ⟨.iteration, (iteration context header key (position + keys.length)).expand body⟩) between =
          .ok (text, after) := by
  induction keys generalizing position session texts with
  | nil =>
    rw [List.nil_append, iterations] at h
    obtain ⟨text, between, htext, h⟩ := outcome_bind_eq_ok_iff.1 h
    cases h
    exact ⟨[], text, session, rfl, htext⟩
  | cons first rest ih =>
    rw [List.cons_append, iterations] at h
    obtain ⟨text, started, hfirst, h⟩ := outcome_bind_eq_ok_iff.1 h
    obtain ⟨texts', final, hrest, h⟩ := outcome_bind_eq_ok_iff.1 h
    cases h
    obtain ⟨texts'', text', between, hbefore, hlast⟩ := ih hrest
    refine ⟨if text.isEmpty then texts'' else text :: texts'', text', between, ?_, ?_⟩
    · rw [iterations]
      exact outcome_bind_eq_ok_iff.2
        ⟨text, started, hfirst, outcome_bind_eq_ok_iff.2 ⟨texts'', between, hbefore, rfl⟩⟩
    · rwa [List.length_cons, ← Nat.add_assoc, Nat.add_right_comm]

theorem outcome_handleFrom_snoc {name : Text} {position : Nat} {lines : List Line}
    (h : outcome (handleFrom engine context walker chain name position (lines ++ [line])) session =
      .ok ((), after)) :
    ∃ line' between final,
      outcome (handleFrom engine context walker chain name position lines) session =
        .ok ((), between) ∧
      outcome (handle engine context walker chain line) between = .ok (line', final) ∧
      after = { final with layers := after.layers } := by
  induction lines generalizing position session with
  | nil =>
    rw [List.nil_append, outcome_handleFrom_cons] at h
    obtain ⟨p, hh, h⟩ := Except.bind_eq_ok_iff.1 h
    cases h
    exact ⟨p.1, session, p.2, rfl, hh, rfl⟩
  | cons first rest ih =>
    rw [List.cons_append, outcome_handleFrom_cons] at h
    obtain ⟨p, hh, h⟩ := Except.bind_eq_ok_iff.1 h
    obtain ⟨line', between, final, hrest, hline, hc⟩ := ih h
    refine ⟨line', between, final, ?_, hline, hc⟩
    rw [outcome_handleFrom_cons, hh]
    exact hrest

/-- A line that is not captured begins a capture at most. -/
theorem capture_of_handle_idle (hc : session.capture = none)
    (h : outcome (handle engine context walker chain line) session = .ok (line', after)) :
    after.capture = none ∨ ∃ construct, after.capture = some { construct } := by
  cases hr : line.rendered with
  | true =>
    rw [outcome_handle_idle hc, outcome_dispatch_rendered _ hr] at h
    cases h
    exact .inl hc
  | false =>
    obtain ⟨named, inherited, spliced, included, hi, hs, h⟩ := stages_of_handle hr hc h
    obtain ⟨hr', hc'⟩ := stage_inherits hr hc hi
    split at h
    · next construct _ =>
      cases h
      exact .inr ⟨construct, rfl⟩
    · cases h
      exact .inl (stage_includes hr' hc' hs).2

/-! ## One part after the other -/

/-- The walks within a depth carry no more away than they are given. -/
def Carrying (engine : Engine) (context : Context) (rounds depth : Nat) : Prop :=
  ∀ {name : Text} {outer : Chain} {session after : Session} {layer : Layer},
    Calm engine context depth (name :: outer) session → session.Grown →
    session.layers.get? name = some layer →
    outcome (walk engine context depth (name :: outer)) session = .ok ((), after) →
    ∀ loops, after.Carries rounds loops (weight rounds loops (session.held ++ layer.lines))

section Parts

variable (hw : Carrying engine context rounds depth)
include hw

theorem carries_transient {name text : Text} {layer : Layer} (hg : session.Grown)
    (hcalm : Calm engine context depth (session.transientName name layer :: chain)
      (session.topped name layer))
    (h : outcome (transient (walk engine context depth) chain name layer) session =
      .ok (text, after)) (loops : Nat) :
    after.Carries rounds loops (weight rounds loops (session.held ++ layer.lines)) := by
  rw [outcome_transient_eq] at h
  obtain ⟨⟨⟨⟩, walked⟩, hrun, h⟩ := Except.map_eq_ok_iff.1 h
  have hget : (session.topped name layer).layers.get? (session.transientName name layer) =
      some layer := Stack.get?_insert_self ..
  have hcarries := hw hcalm (hg.congr rfl) hget hrun loops
  cases h
  exact hcarries.congr rfl

omit hw in
/-- What a loop makes of its body weighs as much as the body. -/
theorem CalmLine.weight_expand (hline : CalmLine engine context depth chain session line)
    {header : LoopHeader} {before behind : List Text} {key : Text}
    (hc : session.Closes line (.loop header.variableName header.collection) body)
    (hk : loopKeys context header = .ok (before ++ key :: behind)) (rounds loops : Nat) :
    loopsAround loops ((iteration context header key before.length).expand body) =
        loopsAround loops body ∧
      weight rounds loops ((iteration context header key before.length).expand body) =
        weight rounds loops body :=
  weight_congr rounds loops (not_not.1 fun hne => hline.keeps (.iteration hc hk hne))

/-- The iterations before some key carry no more than as many bodies. -/
theorem carries_iterations {header : LoopHeader} {before behind texts : List Text}
    (hg : session.Grown)
    (hc : session.Closes line (.loop header.variableName header.collection) body)
    (hline : CalmLine engine context depth chain session line)
    (hk : loopKeys context header = .ok (before ++ behind))
    (h : outcome (iterations context (walk engine context depth) chain header body 0 before)
      session.released = .ok (texts, after)) (loops : Nat) :
    after.Carries rounds loops (before.length * weight rounds loops body) := by
  induction before using List.reverseRecOn generalizing behind texts after with
  | nil =>
    cases h
    exact Session.carries_of_idle rfl rounds loops _
  | append_singleton before key ih =>
    obtain ⟨texts', text, between, hbefore, hlast⟩ := outcome_iterations_snoc h
    rw [List.append_assoc, List.singleton_append] at hk
    have hcarried := ih hk hbefore
    obtain ⟨hloops, hweight⟩ := hline.weight_expand hc hk rounds loops
    rw [Nat.zero_add] at hlast
    have hafter := carries_transient hw hcarried.grown
      (hline.calm (.closing hc (.iteration hk hbefore))) hlast loops
    -- the copy is inside the same loops as the body, and so is what was captured before it
    refine hafter.mono ?_
    rw [weight_append, hloops, (hg.closed_loop hc rounds loops).1, hweight, List.length_append,
      List.length_singleton, Nat.add_mul, Nat.one_mul]
    exact Nat.add_le_add_right hcarried.weight_le _

theorem carries_close (hrounds : Rounds context rounds) (hg : session.Grown)
    (hc : session.Closes line construct body)
    (hline : CalmLine engine context depth chain session line)
    (h : outcome (close context (walk engine context depth) chain body line construct)
      session.released = .ok (line', after)) (loops : Nat) :
    after.Carries rounds loops (weight rounds loops (session.held ++ [line])) := by
  cases construct with
  | block name =>
    rw [close] at h
    obtain ⟨text, between, ht, hafter⟩ := exists_of_endBlock h
    have hcarries := carries_transient hw (Session.grown_of_idle rfl)
      (hline.calm (.closing hc .block)) ht loops
    refine (hcarries.congr (by rw [hafter])).mono ?_
    rw [Session.held_of_idle rfl, List.nil_append]
    exact Nat.le_of_lt (hg.closed_other hc (by simp [Construct.directive]) hline.keeps rounds loops)
  | condition expression =>
    rw [close] at h
    rcases of_endCondition h with rfl | ⟨he, text, ht⟩
    · exact Session.carries_of_idle rfl rounds loops _
    · have hcarries := carries_transient hw (Session.grown_of_idle rfl)
        (hline.calm (.closing hc (.branch he))) ht loops
      refine hcarries.mono ?_
      rw [Session.held_of_idle rfl, List.nil_append]
      exact Nat.le_of_lt (hg.closed_other hc (by simp [Construct.directive]) hline.keeps rounds loops)
  | loop variableName collection =>
    rw [close] at h
    obtain ⟨keys, texts, hk, ht⟩ := exists_of_endLoop h
    have hheader : session.Closes line (.loop (LoopHeader.mk variableName collection).variableName
      (LoopHeader.mk variableName collection).collection) body := hc
    have hall : loopKeys context ⟨variableName, collection⟩ = .ok (keys ++ []) := by
      rw [hk, List.append_nil]
    refine (carries_iterations hw hg hheader hline hall ht loops).mono ?_
    calc keys.length * weight rounds loops body
        ≤ (rounds + 1) * weight rounds loops body :=
          Nat.mul_le_mul_right _ (Nat.le_succ_of_le (hrounds _ _ hk))
      _ ≤ weight rounds loops (session.held ++ [line]) :=
          Nat.le_of_lt (hg.closed_loop hheader rounds loops).2

/-- **What is captured after a line** weighs no more than the line and what was captured before. -/
theorem carries_handle (hrounds : Rounds context rounds) (hg : session.Grown)
    (hline : CalmLine engine context depth chain session line)
    (h : outcome (handle engine context (walk engine context depth) chain line) session =
      .ok (line', after)) (loops : Nat) :
    after.Carries rounds loops (weight rounds loops (session.held ++ [line])) := by
  cases hc : session.capture with
  | none =>
    rcases capture_of_handle_idle hc h with hidle | ⟨construct, hbegun⟩
    · exact Session.carries_of_idle hidle rounds loops _
    · exact Session.carries_of_begun hbegun rounds loops _
  | some capture =>
    cases hf : capture.feed line with
    | held next =>
      have hholds : session.Holds line next := ⟨capture, hc, hf⟩
      rw [outcome_handle_of_holds hholds] at h
      cases h
      obtain ⟨hgrown, hheld⟩ := Session.grown_of_holds hg hholds
      exact ⟨hgrown, Nat.le_of_eq (by rw [hheld])⟩
    | closed construct body =>
      have hcloses : session.Closes line construct body := ⟨capture, hc, hf⟩
      rw [outcome_handle_of_closes hcloses] at h
      exact carries_close hw hrounds hg hcloses hline h loops

/-- The lines of a layer that are handled one after the other, as far as a walk has come. -/
theorem carries_handleFrom (hrounds : Rounds context rounds) {name : Text} {outer : Chain}
    {layer : Layer} {before behind : List Line} (hg : session.Grown)
    (hcalm : Calm engine context (depth + 1) (name :: outer) session)
    (hget : session.layers.get? name = some layer) (hl : layer.lines = before ++ behind)
    (h : outcome (handleFrom engine context (walk engine context depth) (name :: outer) name 0 before)
      (session.entered name) = .ok ((), after)) (loops : Nat) :
    after.Carries rounds loops (weight rounds loops (session.held ++ before)) := by
  induction before using List.reverseRecOn generalizing behind after loops with
  | nil =>
    cases h
    rw [List.append_nil]
    exact ⟨hg.congr rfl, Nat.le_refl _⟩
  | append_singleton before line ih =>
    obtain ⟨line', between, final, hbefore, hhandle, hfinal⟩ := outcome_handleFrom_snoc h
    rw [List.append_assoc, List.singleton_append] at hl
    have hcomes : Comes engine context depth (name :: outer) session line between :=
      .intro hget hl hbefore
    -- the lines before this one have one more line behind them
    have hcarried := ih hl hbefore (loopsAround loops [line])
    have hafter := carries_handle hw hrounds hcarried.grown (hcalm.calmLine hcomes) hhandle loops
    refine (hafter.congr (by rw [hfinal])).mono ?_
    rw [weight_append, ← List.append_assoc, weight_append rounds loops (session.held ++ before)]
    exact Nat.add_le_add_right hcarried.weight_le _

end Parts

/-- **What is captured when a layer ends** weighs no more than the layer and what was captured
before. -/
theorem carries_walk (engine : Engine) (hrounds : Rounds context rounds) (depth : Nat) :
    Carrying engine context rounds depth := by
  induction depth with
  | zero =>
    intro name outer session after layer _ _ _ h
    cases h
  | succ depth ih =>
    intro name outer session after layer hcalm hg hget h loops
    obtain ⟨last, hlines, rfl⟩ := (outcome_walk_eq_ok_iff hget).1 h
    have hcarries := carries_handleFrom ih hrounds hg hcalm hget (List.append_nil _).symm hlines
      loops
    exact hcarries.congr rfl

end Render

end Stencil
