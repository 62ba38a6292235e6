import Stencil.Proofs.Render.Outcome

/-!
# Handling the lines of a tree

What one line of a tree does to the session: a line of text is rewritten
(`outcome_handle_unopened`), a line that opens a body begins a capture (`outcome_handle_opens`), and
a line that closes the body hands it over (`outcome_handle_closes`). In between, the lines of a
well-nested tree are captured as they stand (`outcome_handleFrom_captured`), since what they open
they close.
-/

namespace Stencil

/-- The directives that have a body. -/
def Directive.hasBody (d : Directive) : Bool := d.closing?.isSome

theorem mem_opened_iff {d : Directive} (h : d.hasBody = true) {t : Text} :
    d ∈ opened t ↔ d.occursIn t = true := by
  cases d with
  | block | loop | condition => simp [opened]
  | _ => cases h

theorem mem_closed_iff {d : Directive} (h : d.hasBody = true) {t : Text} :
    d ∈ closed t ↔ d.closesIn t = true := by
  cases d with
  | block | loop | condition => simp [closed]
  | _ => cases h

theorem hasBody_of_closes {d : Directive} {line : Line} (h : line.Closes d) : d.hasBody = true := by
  have hd : d ∈ closed line.text := by simp [h.closed]
  have hmem := (List.mem_filter.1 hd).1
  simp only [List.mem_cons, List.not_mem_nil, or_false] at hmem
  rcases hmem with rfl | rfl | rfl <;> rfl

theorem Construct.hasBody_directive (c : Construct) : c.directive.hasBody = true := by
  cases c <;> rfl

namespace Session

/-- The session while a body is captured. -/
def capturing (session : Session) (capture : Capture) : Session :=
  { session with capture := some capture }

@[simp] theorem capture_capturing (session : Session) (capture : Capture) :
    (session.capturing capture).capture = some capture := rfl

@[simp] theorem capturing_capturing (session : Session) (c c' : Capture) :
    (session.capturing c).capturing c' = session.capturing c' := rfl

@[simp] theorem write_capturing (session : Session) (c : Capture) (name : Text) (i : Nat)
    (out : List Line) :
    (session.capturing c).write name i out = (session.write name i out).capturing c := rfl

theorem capturing_none {session : Session} (h : session.capture = none) (c : Capture) :
    { session.capturing c with capture := none } = session := by
  cases session
  simp only at h
  simp [capturing, h]

end Session

namespace Render

variable {engine : Engine} {context : Context} {walk : Walker} {chain : Chain}

/-! ## One line after the other -/

theorem outcome_handleFrom_cons (name : Text) (position : Nat) (line : Line) (rest : List Line)
    (session : Session) :
    outcome (handleFrom engine context walk chain name position (line :: rest)) session =
      (outcome (handle engine context walk chain line) session).bind fun p =>
        outcome (handleFrom engine context walk chain name (position + 1) rest)
          (p.2.write name position [p.1]) := by
  rw [handleFrom, outcome_bind]
  rfl

theorem outcome_handle_idle {session : Session} (h : session.capture = none) (line : Line) :
    outcome (handle engine context walk chain line) session =
      outcome (dispatch engine context walk chain Directive.order line) session := by
  rw [handle, outcome_bind, outcome_get]
  simp only [Except.bind, h]

theorem outcome_dispatch_rendered (ds : List Directive) {line : Line} (h : line.rendered = true)
    (session : Session) :
    outcome (dispatch engine context walk chain ds line) session = .ok (line, session) := by
  cases ds with
  | nil => rfl
  | cons d ds =>
    rw [dispatch, outcome_bind, outcome_get]
    simp [Except.bind, h]

theorem outcome_dispatch_captured (ds : List Directive) (line : Line) {session : Session}
    (h : session.capture.isSome = true) :
    outcome (dispatch engine context walk chain ds line) session = .ok (line, session) := by
  cases ds with
  | nil => rfl
  | cons d ds =>
    rw [dispatch, outcome_bind, outcome_get]
    simp [Except.bind, h]

theorem outcome_dispatch_cons {d : Directive} (ds : List Directive) {line : Line}
    {session : Session} (hr : line.rendered = false) (hc : session.capture = none) :
    outcome (dispatch engine context walk chain (d :: ds) line) session =
      (if d.occursIn line.text then outcome (apply engine context walk chain line d) session
        else .ok (line, session)).bind fun p =>
          outcome (dispatch engine context walk chain ds p.1) p.2 := by
  rw [dispatch, outcome_bind, outcome_get]
  simp only [Except.bind, hr, hc, Option.isSome_none, Bool.or_self, Bool.false_eq_true, ↓reduceIte]
  split
  · rw [outcome_bind]
    rfl
  · rfl

theorem outcome_dispatch_skip {d : Directive} (ds : List Directive) {line : Line}
    {session : Session} (h : d.occursIn line.text = false) :
    outcome (dispatch engine context walk chain (d :: ds) line) session =
      outcome (dispatch engine context walk chain ds line) session := by
  cases hr : line.rendered with
  | true => rw [outcome_dispatch_rendered _ hr, outcome_dispatch_rendered _ hr]
  | false =>
    cases hc : session.capture with
    | some capture =>
      rw [outcome_dispatch_captured _ _ (by simp [hc]), outcome_dispatch_captured _ _ (by simp [hc])]
    | none =>
      rw [outcome_dispatch_cons ds hr hc, h]
      rfl

/-- The directives that change nothing but the text of a line. -/
theorem outcome_dispatch_rewrite {line : Line} {session : Session} (hr : line.rendered = false)
    (hc : session.capture = none) :
    outcome (dispatch engine context walk chain [.asset, .route, .interpolation] line) session =
      .ok (line.rewrite engine context, session) := by
  have step : ∀ (d : Directive) (ds : List Directive) (line : Line) (f : Text → Text),
      line.rendered = false →
      outcome (apply engine context walk chain line d) session =
        .ok (line.edit (f line.text), session) →
      outcome (dispatch engine context walk chain (d :: ds) line) session =
        outcome (dispatch engine context walk chain ds
          (if d.occursIn line.text then line.edit (f line.text) else line)) session := by
    intro d ds line f hr happly
    rw [outcome_dispatch_cons ds hr hc, happly]
    split <;> rfl
  have hedit : ∀ (c : Bool) (line : Line) (t : Text), line.rendered = false →
      (if c then line.edit t else line).rendered = false := by
    intro c line t h
    cases c <;> exact h
  rw [step .asset _ _ engine.linkAssets hr rfl,
    step .route _ _ engine.linkRoutes (hedit _ _ _ hr) rfl,
    step .interpolation _ _ context.interpolate (hedit _ _ _ (hedit _ _ _ hr)) rfl]
  simp only [Line.rewrite, hr, Bool.false_eq_true, ↓reduceIte]
  rfl

theorem occursIn_eq_false {e : Directive} {t : Text}
    (he : e ∈ [Directive.inherits, .includes, .block, .loop, .condition]) (h : e ∉ opened t) :
    e.occursIn t = false := by
  cases ho : e.occursIn t with
  | false => rfl
  | true => exact absurd (List.mem_filter.2 ⟨he, ho⟩) h

/-- **A line that opens nothing** is rewritten, outside of a capture. -/
theorem outcome_handle_unopened {line : Line} {session : Session} (hc : session.capture = none)
    (h : line.rendered = true ∨ opened line.text = []) :
    outcome (handle engine context walk chain line) session =
      .ok (line.rewrite engine context, session) := by
  rw [outcome_handle_idle hc]
  cases hr : line.rendered with
  | true =>
    rw [outcome_dispatch_rendered _ hr]
    simp [Line.rewrite, hr]
  | false =>
    have ho := h.resolve_left (by simp [hr])
    have hskip : ∀ e ∈ [Directive.inherits, .includes, .block, .loop, .condition],
        e.occursIn line.text = false := fun e he => occursIn_eq_false he (by simp [ho])
    unfold Directive.order
    rw [outcome_dispatch_skip _ (hskip .inherits (by simp)),
      outcome_dispatch_skip _ (hskip .includes (by simp)),
      outcome_dispatch_skip _ (hskip .block (by simp)),
      outcome_dispatch_skip _ (hskip .loop (by simp)),
      outcome_dispatch_skip _ (hskip .condition (by simp)), outcome_dispatch_rewrite hr hc]

theorem outcome_beginCapture {session : Session} (hc : session.capture = none)
    (construct : Construct) :
    outcome (beginCapture construct) session =
      .ok ((), session.capturing { construct }) := by
  rw [beginCapture, outcome_bind, outcome_get]
  simp only [Except.bind, hc, Capture.begin, beginCapture.liftExcept]
  rfl

/-- The effect of the tag that opens a body. -/
theorem outcome_apply_opens {d : Directive} {line : Line} {session : Session}
    (hb : d.hasBody = true) (hc : session.capture = none) (ho : d.occursIn line.text = true) :
    outcome (apply engine context walk chain line d) session =
      .ok (match line.construct? d with
        | some construct => (line.blank, session.capturing { construct })
        | none => (line, session)) := by
  obtain ⟨tag, htag⟩ : ∃ tag, d.find? line.text = some tag := by
    rw [← Option.isSome_iff_exists]
    exact (Pattern.isSome_find? _ _).trans ho
  have hopen : ∀ construct : Construct,
      outcome (do beginCapture construct; return line.blank) session =
        .ok (line.blank, session.capturing { construct }) := by
    intro construct
    rw [outcome_bind, outcome_beginCapture hc]
    rfl
  cases d with
  | block =>
    rw [apply, htag]
    simp only [hopen, Line.construct?, Line.argument, htag, Option.map_some, Option.getD_some]
  | condition =>
    rw [apply, htag]
    simp only [hopen, Line.construct?, Line.argument, htag, Option.map_some, Option.getD_some]
  | loop =>
    rw [apply]
    unfold Line.construct? Line.header? LoopHeader.ofText?
    cases (Directive.loop.find? line.text).bind fun tag => LoopHeader.ofArgument? tag.argument with
    | none => rfl
    | some header => simp only [hopen, Option.map_some]
  | _ => cases hb

/-- A directive with a body begins a capture, or leaves the line as it is. -/
theorem outcome_dispatch_body {d : Directive} {line : Line} {session : Session}
    (hb : d.hasBody = true) (hr : line.rendered = false) (hc : session.capture = none)
    (ds : List Directive) :
    outcome (dispatch engine context walk chain (d :: ds) line) session =
      match if d.occursIn line.text then line.construct? d else none with
      | some construct => .ok (line.blank, session.capturing { construct })
      | none => outcome (dispatch engine context walk chain ds line) session := by
  cases ho : d.occursIn line.text with
  | false => rw [outcome_dispatch_skip ds ho]; rfl
  | true =>
    rw [outcome_dispatch_cons ds hr hc, if_pos ho, outcome_apply_opens hb hc ho]
    simp only [↓reduceIte]
    cases line.construct? d with
    | none => rfl
    | some construct =>
      show outcome (dispatch engine context walk chain ds _) _ = _
      rw [outcome_dispatch_captured _ _ rfl]

/-- **A line that extends and includes nothing** begins a capture, or is rewritten if it begins no
body. -/
theorem outcome_dispatch_bodies {line : Line} {session : Session} (hr : line.rendered = false)
    (hc : session.capture = none) :
    outcome (dispatch engine context walk chain
        [.block, .loop, .condition, .asset, .route, .interpolation] line) session =
      .ok (match line.begins? with
        | some construct => (line.blank, session.capturing { construct })
        | none => (line.rewrite engine context, session)) := by
  rw [outcome_dispatch_body rfl hr hc, outcome_dispatch_body rfl hr hc,
    outcome_dispatch_body rfl hr hc, outcome_dispatch_rewrite hr hc, Line.begins?,
    List.findSome?_cons, List.findSome?_cons, List.findSome?_cons, List.findSome?_nil]
  cases (if Directive.block.occursIn line.text then line.construct? .block else none) with
  | some construct => rfl
  | none =>
    cases (if Directive.loop.occursIn line.text then line.construct? .loop else none) with
    | some construct => rfl
    | none =>
      cases (if Directive.condition.occursIn line.text then line.construct? .condition
        else none) <;> rfl

theorem begins?_of_opens {d : Directive} {line : Line} (hb : d.hasBody = true)
    (h : line.Opens d) : line.begins? = line.construct? d := by
  have ho : ∀ e : Directive, e.hasBody = true → (e.occursIn line.text = true ↔ e = d) := by
    intro e he
    rw [← mem_opened_iff he, h.opened, List.mem_singleton]
  rw [Line.begins?, List.findSome?_cons, List.findSome?_cons, List.findSome?_cons,
    List.findSome?_nil]
  simp only [ho .block rfl, ho .loop rfl, ho .condition rfl]
  cases d with
  | block => cases line.construct? .block <;> rfl
  | loop => cases line.construct? .loop <;> rfl
  | condition => cases line.construct? .condition <;> rfl
  | _ => cases hb

/-- **A line that opens a body** begins a capture, or is rewritten if it is the line of a loop whose
header cannot be read. -/
theorem outcome_handle_opens {d : Directive} {line : Line} {session : Session}
    (hb : d.hasBody = true) (hc : session.capture = none) (h : line.Opens d) :
    outcome (handle engine context walk chain line) session =
      .ok (match line.construct? d with
        | some construct => (line.blank, session.capturing { construct })
        | none => (line.rewrite engine context, session)) := by
  have hskip : ∀ e ∈ [Directive.inherits, .includes, .block, .loop, .condition],
      e.hasBody = false → e.occursIn line.text = false := by
    intro e he hne
    refine occursIn_eq_false he ?_
    rw [h.opened, List.mem_singleton]
    rintro rfl
    rw [hb] at hne
    cases hne
  rw [outcome_handle_idle hc]
  unfold Directive.order
  rw [outcome_dispatch_skip _ (hskip .inherits (by simp) rfl),
    outcome_dispatch_skip _ (hskip .includes (by simp) rfl),
    outcome_dispatch_bodies h.not_rendered hc, begins?_of_opens hb h]

/-! ## Captured lines -/

theorem depthAfter_plain {line : Line} (h : line.IsPlain) (capture : Capture) :
    capture.depthAfter line = capture.depth := by
  unfold Capture.depthAfter
  split
  · rfl
  · next hr =>
    obtain ⟨ho, hc⟩ := h.resolve_left hr
    have hb := capture.construct.hasBody_directive
    have ho' : capture.construct.directive.occursIn line.text = false := by
      rw [← Bool.not_eq_true, ← mem_opened_iff hb, ho]
      simp
    have hc' : capture.construct.directive.closesIn line.text = false := by
      rw [← Bool.not_eq_true, ← mem_closed_iff hb, hc]
      simp
    simp [ho', hc']

theorem depthAfter_opens {line : Line} {d : Directive} (h : line.Opens d) (capture : Capture) :
    capture.depthAfter line =
      if d = capture.construct.directive then capture.depth + 1 else capture.depth := by
  have hb := capture.construct.hasBody_directive
  have ho : capture.construct.directive.occursIn line.text =
      decide (d = capture.construct.directive) := by
    rw [Bool.eq_iff_iff, ← mem_opened_iff hb, h.opened]
    simp [eq_comm]
  have hc : capture.construct.directive.closesIn line.text = false := by
    rw [← Bool.not_eq_true, ← mem_closed_iff hb, h.closed]
    simp
  simp [Capture.depthAfter, h.not_rendered, ho, hc]

theorem depthAfter_closes {line : Line} {d : Directive} (h : line.Closes d) (capture : Capture) :
    capture.depthAfter line =
      if d = capture.construct.directive then capture.depth - 1 else capture.depth := by
  have hb := capture.construct.hasBody_directive
  have ho : capture.construct.directive.occursIn line.text = false := by
    rw [← Bool.not_eq_true, ← mem_opened_iff hb, h.opened]
    simp
  have hc : capture.construct.directive.closesIn line.text =
      decide (d = capture.construct.directive) := by
    rw [Bool.eq_iff_iff, ← mem_closed_iff hb, h.closed]
    simp [eq_comm]
  simp [Capture.depthAfter, h.not_rendered, ho, hc]

theorem outcome_handle_held {capture : Capture} {line : Line} (session : Session)
    (h : capture.depthAfter line ≠ 0) :
    outcome (handle engine context walk chain line) (session.capturing capture) =
      .ok (line.blank, session.capturing { capture with
        depth := capture.depthAfter line, buffer := capture.buffer ++ [line] }) := by
  rw [handle, outcome_bind, outcome_get]
  simp only [Except.bind, Session.capture_capturing, Capture.feed, h, ↓reduceIte]
  rw [outcome_bind, outcome_modify]
  rfl

/-- **A line that closes the body** hands it over. -/
theorem outcome_handle_closes {capture : Capture} {line : Line} {session : Session}
    (hc : session.capture = none) (h : capture.depthAfter line = 0) :
    outcome (handle engine context walk chain line) (session.capturing capture) =
      outcome (close context walk chain capture.buffer line capture.construct) session := by
  rw [handle, outcome_bind, outcome_get]
  simp only [Except.bind, Session.capture_capturing, Capture.feed, h, ↓reduceIte]
  rw [outcome_bind, outcome_modify]
  simp only [Except.bind, Session.capturing_none hc]

/-- One line of a body. -/
theorem outcome_handleFrom_held (name : Text) (position : Nat) {line : Line} (rest : List Line)
    {capture : Capture} (session : Session) (h : capture.depthAfter line ≠ 0) :
    outcome (handleFrom engine context walk chain name position (line :: rest))
        (session.capturing capture) =
      outcome (handleFrom engine context walk chain name (position + 1) rest)
        ((session.write name position [line.blank]).capturing { capture with
          depth := capture.depthAfter line, buffer := capture.buffer ++ [line] }) := by
  rw [outcome_handleFrom_cons, outcome_handle_held session h]
  rfl

/-- **The lines of a well-nested tree** are captured as they stand, however deep the capture is. -/
theorem outcome_handleFrom_captured {n : Nesting} (hn : n.WellNested) (name : Text) (position : Nat)
    (tail : List Line) {capture : Capture} (hd : 1 ≤ capture.depth) (session : Session) :
    outcome (handleFrom engine context walk chain name position (n.lines ++ tail))
        (session.capturing capture) =
      outcome (handleFrom engine context walk chain name (position + n.lines.length) tail)
        ((session.write name position (n.lines.map Line.blank)).capturing
          { capture with buffer := capture.buffer ++ n.lines }) := by
  induction n generalizing position tail capture session with
  | done => simp [Nesting.lines]
  | text line rest ih =>
    have hdepth := depthAfter_plain hn.1 capture
    rw [Nesting.lines, List.cons_append, outcome_handleFrom_held _ _ _ _ (by omega),
      ih hn.2 _ _ (by simp only [hdepth]; exact hd)]
    rw [Session.write_write session name _ (by simp), hdepth, List.length_cons, Nat.add_right_comm,
      ← Nat.add_assoc]
    simp
  | span d opening body closing rest ihb ihr =>
    obtain ⟨ho, hb, hc, hr⟩ := hn
    -- inside, the capture is one deeper if the body is of the same kind
    have hopen := depthAfter_opens ho capture
    have hinside : 1 ≤ capture.depthAfter opening := by
      rw [hopen]
      split <;> omega
    have hclose : ∀ buffer, Capture.depthAfter
        { capture with depth := capture.depthAfter opening, buffer } closing = capture.depth := by
      intro buffer
      rw [depthAfter_closes hc, hopen]
      simp only
      split <;> omega
    rw [Nesting.lines, List.cons_append, List.append_assoc, List.cons_append,
      outcome_handleFrom_held _ _ _ _ (by omega), ihb hb _ _ hinside,
      outcome_handleFrom_held _ _ _ _ (by rw [hclose]; omega), ihr hr _ _ (by rw [hclose]; exact hd),
      Session.write_write session name _ (by simp),
      Session.write_write session name _ (by simp; omega),
      Session.write_write session name _ (by simp; omega), hclose]
    simp [Nat.add_assoc, Nat.add_comm, Nat.add_left_comm]

end Render

end Stencil
