import Stencil.Proofs.Nesting.Capture
import Stencil.Proofs.Render.Ending

/-!
# Handling a line

A line that is not captured goes through three stages: it takes in the parent it names, it includes
the templates it names, and then it begins a body or has its links and values replaced
(`outcome_dispatch_order`). A line that closes a body hands it over. What each of these steps can
have done, once it has ended, is said once: `stages_of_handle` for the stages,
`of_dispatch_inherits` for the first of them, and `exists_of_endBlock`, `of_endCondition` and
`exists_of_endLoop` for the bodies.

Both ways lead to further walks, and `Render.Starts` says to which ones: each of them with the layer
that is walked and the session in which its turn comes. `outcome_handle_eq_error_iff` is what this
is for. A line fails if and only if it raises an error of its own (`Render.Raises`), or one of the
walks that it starts fails.
-/

namespace Stencil

/-- The name of the layer of a parent. -/
def parentLayer (parent : Text) : Text := Stack.fullName LayerKind.parent.label? parent

theorem parentLayer_injective {p q : Text} (h : parentLayer p = parentLayer q) : p = q :=
  Stack.fullName_injective h

theorem fullName_ne_mainName (label x : Text) : Stack.fullName (some label) x ≠ mainName := by
  intro h
  have hdot : '.' ∈ Stack.fullName (some label) x := by simp [Stack.fullName]
  rw [h] at hdot
  revert hdot
  decide

theorem mainName_ne_parentLayer (parent : Text) : mainName ≠ parentLayer parent :=
  (fullName_ne_mainName _ _).symm

namespace Session

/-- The session without a capture. -/
def released (session : Session) : Session := { session with capture := none }

/-- The session with a layer on top of the others, for as long as it is walked. -/
def topped (session : Session) (name : Text) (layer : Layer) : Session :=
  session.placing (session.transientName name layer) layer

/-- The session with another parent, which is put in front and waits for its turn. -/
def taking (session : Session) (parent : Text) (lines : List Text) : Session :=
  { session with
    extended := parent :: session.extended
    layers := session.layers.insertFront (parentLayer parent) (Layer.ofSource .parent lines)
    pending := session.pending ++ [parentLayer parent] }

/-- The line is the one that closes the body being captured. -/
def Closes (session : Session) (line : Line) (construct : Construct) (body : List Line) : Prop :=
  ∃ capture, session.capture = some capture ∧ capture.feed line = .closed construct body

/-- The line takes in the template `parent`. -/
structure TakesIn (session : Session) (line : Line) (parent : Text) : Prop where
  idle : session.capture = none
  not_rendered : line.rendered = false
  names : ∃ tag, Directive.inherits.find? line.text = some tag ∧ unquote tag.argument = parent

end Session

namespace Render

variable {α β : Type} {engine : Engine} {context : Context} {walker : Walker} {chain : Chain}
  {session : Session} {line : Line} {e : Error}

/-! ## Parts that fail -/

theorem outcome_bind_eq_error_iff {part : Render α} {f : α → Render β} :
    outcome (part >>= f) session = .error e ↔ outcome part session = .error e ∨
      ∃ a after, outcome part session = .ok (a, after) ∧ outcome (f a) after = .error e := by
  rw [outcome_bind, Except.bind_eq_error_iff, Prod.exists]

theorem outcome_bind_eq_ok_iff {part : Render α} {f : α → Render β} {b : β} {final : Session} :
    outcome (part >>= f) session = .ok (b, final) ↔
      ∃ a after, outcome part session = .ok (a, after) ∧ outcome (f a) after = .ok (b, final) := by
  rw [outcome_bind, Except.bind_eq_ok_iff, Prod.exists]

/-- What comes of a layer that is put on top, walked, and taken off again. -/
theorem outcome_transient_eq (name : Text) (layer : Layer) :
    outcome (transient walker chain name layer) session =
      (outcome (walker (session.transientName name layer :: chain))
        (session.topped name layer)).map fun p =>
          (((p.2.layers.get? (session.transientName name layer)).map Layer.render).getD [],
            p.2.removing (session.transientName name layer)) := by
  unfold outcome
  rw [transient_apply]
  simp only [Session.topped]
  cases walker (session.transientName name layer :: chain)
    (session.placing (session.transientName name layer) layer) with
  | mk result after => cases result <;> rfl

theorem outcome_transient_eq_error_iff {name : Text} {layer : Layer} :
    outcome (transient walker chain name layer) session = .error e ↔
      outcome (walker (session.transientName name layer :: chain)) (session.topped name layer) =
        .error e := by
  rw [outcome_transient_eq, Except.map_eq_error_iff]

theorem outcome_abandoning (part : Render α) :
    outcome (abandoning part) session =
      (outcome part session).map fun p => (p.1, p.2.released) := by
  unfold outcome abandoning
  cases part session with
  | mk result after => cases result <;> rfl

/-! ## The stages of a line -/

theorem outcome_dispatch_append (ds ds' : List Directive) (line : Line) (session : Session) :
    outcome (dispatch engine context walker chain (ds ++ ds') line) session =
      (outcome (dispatch engine context walker chain ds line) session).bind fun p =>
        outcome (dispatch engine context walker chain ds' p.1) p.2 := by
  induction ds generalizing line session with
  | nil => rfl
  | cons d ds ih =>
    cases hr : line.rendered with
    | true =>
      rw [outcome_dispatch_rendered _ hr, outcome_dispatch_rendered _ hr]
      exact (outcome_dispatch_rendered _ hr _).symm
    | false =>
      cases hc : session.capture with
      | some capture =>
        rw [outcome_dispatch_captured _ _ (by simp [hc]),
          outcome_dispatch_captured _ _ (by simp [hc])]
        exact (outcome_dispatch_captured _ _ (by simp [hc])).symm
      | none =>
        rw [List.cons_append, outcome_dispatch_cons _ hr hc, outcome_dispatch_cons _ hr hc]
        cases (if d.occursIn line.text then outcome (apply engine context walker chain line d) session
          else .ok (line, session)) with
        | error e => rfl
        | ok p => exact ih p.1 p.2

theorem outcome_dispatch_single (d : Directive) (hr : line.rendered = false)
    (hc : session.capture = none) :
    outcome (dispatch engine context walker chain [d] line) session =
      if d.occursIn line.text then outcome (apply engine context walker chain line d) session
        else .ok (line, session) := by
  rw [outcome_dispatch_cons [] hr hc]
  cases (if d.occursIn line.text then outcome (apply engine context walker chain line d) session
    else .ok (line, session)) <;> rfl

theorem outcome_inherit_eq {tag : Tag} (h : Directive.inherits.find? line.text = some tag) :
    outcome (inherit engine line) session =
      if session.extended.contains (unquote tag.argument) then
        .error (.inheritanceCycle (unquote tag.argument))
      else (engine.loadLines (unquote tag.argument) []).map fun lines =>
        (line.edit (Directive.inherits.pattern.dropFirst line.text),
          session.taking (unquote tag.argument) lines) := by
  unfold inherit
  rw [h]
  simp only
  rw [outcome_bind, outcome_get]
  simp only [Except.bind]
  split
  · rfl
  · rw [outcome_bind, outcome_modify]
    simp only [Except.bind, source]
    cases engine.loadLines (unquote tag.argument) [] <;> rfl

/-- The first stage of a line fails if the parent that the line names cannot be taken in. -/
theorem outcome_dispatch_inherits_eq_error_iff (hr : line.rendered = false)
    (hc : session.capture = none) :
    outcome (dispatch engine context walker chain [.inherits] line) session = .error e ↔
      ∃ parent, session.TakesIn line parent ∧
        if session.extended.contains parent then e = .inheritanceCycle parent
        else engine.loadLines parent [] = .error e := by
  rw [outcome_dispatch_single .inherits hr hc, Directive.occursIn, ← Pattern.isSome_find?,
    ← Directive.find?]
  cases hf : Directive.inherits.find? line.text with
  | none =>
    constructor
    · intro h
      cases h
    · rintro ⟨parent, ⟨-, -, tag, htag, -⟩, -⟩
      rw [hf] at htag
      cases htag
  | some tag =>
    rw [Option.isSome_some, if_pos rfl, apply, outcome_inherit_eq hf]
    have htakes : ∀ parent, session.TakesIn line parent ↔ parent = unquote tag.argument := by
      intro parent
      constructor
      · rintro ⟨-, -, tag', htag, rfl⟩
        rw [hf] at htag
        rw [Option.some.inj htag]
      · rintro rfl
        exact ⟨hc, hr, tag, hf, rfl⟩
    simp only [htakes, exists_eq_left]
    split
    · simp [eq_comm]
    · rw [Except.map_eq_error_iff]

/-- The first stage of a line does nothing, or it takes in the parent that the line names. -/
theorem of_dispatch_inherits {line' : Line} {after : Session} (hr : line.rendered = false)
    (hc : session.capture = none)
    (h : outcome (dispatch engine context walker chain [.inherits] line) session =
      .ok (line', after)) :
    line' = line ∧ after = session ∨
      ∃ parent lines, session.TakesIn line parent ∧ parent ∉ session.extended ∧
        engine.loadLines parent [] = .ok lines ∧
        line' = line.edit (Directive.inherits.pattern.dropFirst line.text) ∧
        after = session.taking parent lines := by
  rw [outcome_dispatch_single .inherits hr hc, Directive.occursIn, ← Pattern.isSome_find?,
    ← Directive.find?] at h
  cases hf : Directive.inherits.find? line.text with
  | none =>
    rw [hf] at h
    cases h
    exact .inl ⟨rfl, rfl⟩
  | some tag =>
    rw [hf, Option.isSome_some, if_pos rfl, apply, outcome_inherit_eq hf] at h
    split at h
    · cases h
    · next hx =>
      obtain ⟨lines, hl, h⟩ := Except.map_eq_ok_iff.1 h
      cases h
      exact .inr ⟨_, lines, ⟨hc, hr, tag, hf, rfl⟩, by simpa using hx, hl, rfl, rfl⟩

theorem stage_inherits {line' : Line} {after : Session} (hr : line.rendered = false)
    (hc : session.capture = none)
    (h : outcome (dispatch engine context walker chain [.inherits] line) session =
      .ok (line', after)) : line'.rendered = false ∧ after.capture = none := by
  rcases of_dispatch_inherits hr hc h with ⟨rfl, rfl⟩ | ⟨parent, lines, -, -, -, rfl, rfl⟩
  · exact ⟨hr, hc⟩
  · exact ⟨hr, hc⟩

/-- An inclusion leaves no capture behind. -/
theorem capture_of_included {name page : Text} {after : Session} (hc : session.capture = none)
    (h : outcome (included engine walker chain name) session = .ok (page, after)) :
    after.capture = none := by
  unfold included at h
  split at h
  · cases h
    exact hc
  · split at h
    · cases h
      exact hc
    · next lines _ =>
      rw [outcome_abandoning] at h
      obtain ⟨p, -, h⟩ := Except.map_eq_ok_iff.1 h
      cases h
      rfl

theorem capture_of_splice {tags : List (Tag × Text)} {page : Text} {after : Session}
    (hc : session.capture = none)
    (h : outcome (splice engine walker chain tags) session = .ok (page, after)) :
    after.capture = none := by
  induction tags generalizing page after with
  | nil =>
    cases h
    exact hc
  | cons entry rest ih =>
    rw [splice] at h
    obtain ⟨tail, between, htail, h⟩ := outcome_bind_eq_ok_iff.1 h
    obtain ⟨page', after', hpage, h⟩ := outcome_bind_eq_ok_iff.1 h
    cases h
    exact capture_of_included (ih htail) hpage

theorem outcome_includeLine (line : Line) (session : Session) :
    outcome (includeLine engine walker chain line) session =
      (outcome (splice engine walker chain
          (Pattern.cut (Directive.includes.pattern.scan line.text)).2) session).map fun p =>
        (line.edit ((Pattern.cut (Directive.includes.pattern.scan line.text)).1 ++ p.1), p.2) := by
  rw [includeLine]
  simp only
  rw [outcome_bind]
  cases outcome (splice engine walker chain
    (Pattern.cut (Directive.includes.pattern.scan line.text)).2) session <;> rfl

theorem stage_includes {line' : Line} {after : Session} (hr : line.rendered = false)
    (hc : session.capture = none)
    (h : outcome (dispatch engine context walker chain [.includes] line) session =
      .ok (line', after)) : line'.rendered = false ∧ after.capture = none := by
  rw [outcome_dispatch_single .includes hr hc] at h
  split at h
  · rw [apply, outcome_includeLine] at h
    obtain ⟨p, hs, h⟩ := Except.map_eq_ok_iff.1 h
    cases h
    exact ⟨hr, capture_of_splice hc hs⟩
  · cases h
    exact ⟨hr, hc⟩

/-- **A line that is not captured** takes in the parent it names, includes the templates it names,
and begins a body or has its links and values replaced. -/
theorem outcome_dispatch_order (hr : line.rendered = false) (hc : session.capture = none) :
    outcome (dispatch engine context walker chain Directive.order line) session =
      (outcome (dispatch engine context walker chain [.inherits] line) session).bind fun p =>
        (outcome (dispatch engine context walker chain [.includes] p.1) p.2).map fun q =>
          match q.1.begins? with
          | some construct => (q.1.blank, q.2.capturing { construct })
          | none => (q.1.rewrite engine context, q.2) := by
  have horder : Directive.order = [.inherits] ++ ([.includes] ++
    [.block, .loop, .condition, .asset, .route, .interpolation]) := rfl
  rw [horder, outcome_dispatch_append]
  cases hi : outcome (dispatch engine context walker chain [.inherits] line) session with
  | error e => rfl
  | ok p =>
    obtain ⟨hr', hc'⟩ := stage_inherits hr hc hi
    simp only [Except.bind]
    rw [outcome_dispatch_append]
    cases hs : outcome (dispatch engine context walker chain [.includes] p.1) p.2 with
    | error e => rfl
    | ok q =>
      obtain ⟨hr'', hc''⟩ := stage_includes hr' hc' hs
      exact outcome_dispatch_bodies hr'' hc''

/-- **What a line has gone through** that was handled while nothing was captured. -/
theorem stages_of_handle {line' : Line} {after : Session} (hr : line.rendered = false)
    (hc : session.capture = none)
    (h : outcome (handle engine context walker chain line) session = .ok (line', after)) :
    ∃ named inherited spliced included,
      outcome (dispatch engine context walker chain [.inherits] line) session =
        .ok (named, inherited) ∧
      outcome (dispatch engine context walker chain [.includes] named) inherited =
        .ok (spliced, included) ∧
      (line', after) = match spliced.begins? with
        | some construct => (spliced.blank, included.capturing { construct })
        | none => (spliced.rewrite engine context, included) := by
  rw [outcome_handle_idle hc, outcome_dispatch_order hr hc] at h
  obtain ⟨⟨named, inherited⟩, hi, h⟩ := Except.bind_eq_ok_iff.1 h
  obtain ⟨⟨spliced, included⟩, hs, h⟩ := Except.map_eq_ok_iff.1 h
  exact ⟨named, inherited, spliced, included, hi, hs, h.symm⟩

/-! ## The bodies that a line closes -/

section Closed

variable {body : List Line} {line' : Line} {after : Session}

theorem outcome_handle_of_closes {construct : Construct} (h : session.Closes line construct body) :
    outcome (handle engine context walker chain line) session =
      outcome (close context walker chain body line construct) session.released := by
  obtain ⟨capture, hc, hf⟩ := h
  rw [handle, outcome_bind, outcome_get]
  simp only [Except.bind, hc, hf]
  rw [outcome_bind, outcome_modify]
  rfl

/-- Where the content of a block goes concerns the layers only. -/
theorem exists_of_endBlock {name : Text}
    (h : outcome (endBlock walker chain name body line) session = .ok (line', after)) :
    ∃ text between, outcome (transient walker chain name ⟨.block, body⟩) session =
      .ok (text, between) ∧ after = { between with layers := after.layers } := by
  rw [endBlock] at h
  obtain ⟨text, between, ht, h⟩ := outcome_bind_eq_ok_iff.1 h
  refine ⟨text, between, ht, ?_⟩
  rw [outcome_bind, outcome_get] at h
  simp only [Except.bind] at h
  split at h
  · cases h
    rfl
  · split at h <;> cases h <;> rfl

theorem of_endCondition {expression : Text}
    (h : outcome (endCondition context walker chain expression body line) session =
      .ok (line', after)) :
    after = session ∨ Condition.evaluate expression context = .ok true ∧ ∃ text,
      outcome (transient walker chain expression ⟨.branch, body⟩) session = .ok (text, after) := by
  unfold endCondition at h
  split at h
  · next he =>
    obtain ⟨text, between, ht, h⟩ := outcome_bind_eq_ok_iff.1 h
    cases h
    exact .inr ⟨he, text, ht⟩
  · cases h
    exact .inl rfl
  · cases h
    exact .inl rfl

theorem exists_of_endLoop {header : LoopHeader}
    (h : outcome (endLoop context walker chain header body line) session = .ok (line', after)) :
    ∃ keys texts, loopKeys context header = .ok keys ∧
      outcome (iterations context walker chain header body 0 keys) session = .ok (texts, after) := by
  unfold endLoop at h
  split at h
  · cases h
  · next keys hk =>
    obtain ⟨texts, between, ht, h⟩ := outcome_bind_eq_ok_iff.1 h
    cases h
    exact ⟨keys, texts, hk, ht⟩

end Closed

/-! ## The walks that a line starts -/

/-- A body that is closed in `session` starts the walk of a layer, which is put on top of the
session in the last place. -/
inductive Closing (context : Context) (walker : Walker) (chain : Chain) (session : Session)
    (body : List Line) : Construct → (name : Text) → Layer → Session → Prop where
  | block {name : Text} :
    Closing context walker chain session body (.block name) name ⟨.block, body⟩ session
  | branch {expression : Text} (he : Condition.evaluate expression context = .ok true) :
    Closing context walker chain session body (.condition expression) expression ⟨.branch, body⟩
      session
  /-- An iteration of a loop, those before it having ended. -/
  | iteration {header : LoopHeader} {before behind : List Text} {key : Text} {texts : List Text}
    {after : Session} (hk : loopKeys context header = .ok (before ++ key :: behind))
    (hb : outcome (iterations context walker chain header body 0 before) session =
      .ok (texts, after)) :
    Closing context walker chain session body (.loop header.variableName header.collection)
      (header.key ++ '.' :: key)
      ⟨.iteration, (iteration context header key before.length).expand body⟩ after

/-- A line that is handled in `session` starts the walk of a layer, which is put on top of the
session in the last place. -/
inductive Starts (engine : Engine) (context : Context) (walker : Walker) (chain : Chain)
    (session : Session) (line : Line) : (name : Text) → Layer → Session → Prop where
  /-- The line closes a body. -/
  | closing {construct : Construct} {body : List Line} {name : Text} {layer : Layer}
    {after : Session} (hc : session.Closes line construct body)
    (hs : Closing context walker chain session.released body construct name layer after) :
    Starts engine context walker chain session line name layer after
  /-- The line includes a template. Of several on one line the last one comes first. -/
  | inclusion {line' : Line} {inherited after : Session} {before behind : List (Tag × Text)}
    {tag : Tag} {gap tail : Text} {lines : List Text}
    (hc : session.capture = none) (hr : line.rendered = false)
    (hi : outcome (dispatch engine context walker chain [.inherits] line) session =
      .ok (line', inherited))
    (ht : (Pattern.cut (Directive.includes.pattern.scan line'.text)).2 =
      before ++ (tag, gap) :: behind)
    (hb : outcome (splice engine walker chain behind) inherited = .ok (tail, after))
    (hn : chain.contains (Stack.fullName LayerKind.inclusion.label? (unquote tag.argument)) = false)
    (hl : engine.loadLines (unquote tag.argument) engine.includesDir = .ok lines) :
    Starts engine context walker chain session line (unquote tag.argument)
      (Layer.ofSource .inclusion lines) after

/-- A line that is handled in `session` raises an error. -/
inductive Raises (engine : Engine) (context : Context) (session : Session) (line : Line) :
    Error → Prop where
  /-- The parent that the line names cannot be loaded. -/
  | parent {parent : Text} {e : Error} (ht : session.TakesIn line parent)
    (hx : session.extended.contains parent = false) (hl : engine.loadLines parent [] = .error e) :
    Raises engine context session line e
  /-- The parent that the line names was extended already. -/
  | cycle {parent : Text} (ht : session.TakesIn line parent)
    (hx : session.extended.contains parent = true) :
    Raises engine context session line (.inheritanceCycle parent)
  /-- The line closes a loop over a collection that is missing. -/
  | collection {header : LoopHeader} {body : List Line}
    (hc : session.Closes line (.loop header.variableName header.collection) body)
    (hn : header.isNested = false) (hg : context.get? header.collection = none) :
    Raises engine context session line (.missingCollection header.collection)

/-- The walk of a layer on top of a session fails. -/
def Fails (walker : Walker) (chain : Chain) (session : Session) (name : Text) (layer : Layer)
    (e : Error) : Prop :=
  outcome (walker (session.transientName name layer :: chain)) (session.topped name layer) =
    .error e

theorem outcome_included_eq_error_iff {name : Text} :
    outcome (included engine walker chain name) session = .error e ↔
      chain.contains (Stack.fullName LayerKind.inclusion.label? name) = false ∧
        ∃ lines, engine.loadLines name engine.includesDir = .ok lines ∧
          Fails walker chain session name (Layer.ofSource .inclusion lines) e := by
  unfold included
  cases hn : chain.contains (Stack.fullName LayerKind.inclusion.label? name) with
  | true => simp
  | false =>
    cases hl : engine.loadLines name engine.includesDir with
    | error e' => simp
    | ok lines =>
      simp only [Bool.false_eq_true, if_false, true_and, Except.ok.injEq, exists_eq_left']
      rw [outcome_abandoning, Fails, ← outcome_transient_eq_error_iff, Except.map_eq_error_iff]

/-- Including the templates of a line fails if and only if including one of them does, those behind
it being included already. -/
theorem outcome_splice_eq_error_iff {tags : List (Tag × Text)} :
    outcome (splice engine walker chain tags) session = .error e ↔
      ∃ before tag gap behind tail after, tags = before ++ (tag, gap) :: behind ∧
        outcome (splice engine walker chain behind) session = .ok (tail, after) ∧
        outcome (included engine walker chain (unquote tag.argument)) after = .error e := by
  induction tags with
  | nil =>
    constructor
    · intro h
      cases h
    · rintro ⟨before, tag, gap, behind, tail, after, h, -⟩
      exact absurd h (by simp)
  | cons entry rest ih =>
    obtain ⟨tag, gap⟩ := entry
    rw [splice, outcome_bind_eq_error_iff, ih]
    constructor
    · rintro (⟨before, tag', gap', behind, tail, after, rfl, htail, hfail⟩ | ⟨tail, after, htail, h⟩)
      · exact ⟨(tag, gap) :: before, tag', gap', behind, tail, after, rfl, htail, hfail⟩
      · rcases outcome_bind_eq_error_iff.1 h with hfail | ⟨page, final, -, hpure⟩
        · exact ⟨[], tag, gap, rest, tail, after, rfl, htail, hfail⟩
        · cases hpure
    · rintro ⟨before, tag', gap', behind, tail, after, heq, htail, hfail⟩
      cases before with
      | nil =>
        obtain ⟨hentry, rfl⟩ := List.cons.inj heq
        obtain ⟨rfl, rfl⟩ := Prod.mk.inj hentry
        exact .inr ⟨tail, after, htail, outcome_bind_eq_error_iff.2 (.inl hfail)⟩
      | cons _ before =>
        exact .inl ⟨before, tag', gap', behind, tail, after, (List.cons.inj heq).2, htail, hfail⟩

/-- The iterations of a loop fail if and only if one of them does, those before it having ended. -/
theorem outcome_iterations_eq_error_iff {header : LoopHeader} {body : List Line} {position : Nat}
    {keys : List Text} :
    outcome (iterations context walker chain header body position keys) session = .error e ↔
      ∃ before key behind texts after, keys = before ++ key :: behind ∧
        outcome (iterations context walker chain header body position before) session =
          .ok (texts, after) ∧
        Fails walker chain after (header.key ++ '.' :: key)
          ⟨.iteration, (iteration context header key (position + before.length)).expand body⟩ e := by
  induction keys generalizing position session with
  | nil =>
    constructor
    · intro h
      cases h
    · rintro ⟨before, key, behind, texts, after, h, -⟩
      exact absurd h (by simp)
  | cons key rest ih =>
    rw [iterations, outcome_bind_eq_error_iff]
    constructor
    · rintro (hfail | ⟨text, after, htext, h⟩)
      · exact ⟨[], key, rest, [], session, rfl, rfl, outcome_transient_eq_error_iff.1 hfail⟩
      · rcases outcome_bind_eq_error_iff.1 h with h | ⟨texts, final, -, hpure⟩
        · obtain ⟨before, key', behind, texts, final, rfl, hb, hfail⟩ := ih.1 h
          refine ⟨key :: before, key', behind, if text.isEmpty then texts else text :: texts, final,
            rfl, ?_, by rwa [List.length_cons, ← Nat.add_assoc, Nat.add_right_comm]⟩
          rw [iterations]
          exact outcome_bind_eq_ok_iff.2
            ⟨text, after, htext, outcome_bind_eq_ok_iff.2 ⟨texts, final, hb, rfl⟩⟩
        · cases hpure
    · rintro ⟨before, key', behind, texts, final, heq, hb, hfail⟩
      cases before with
      | nil =>
        obtain ⟨rfl, rfl⟩ := List.cons.inj heq
        cases hb
        exact .inl (outcome_transient_eq_error_iff.2 hfail)
      | cons _ before =>
        obtain ⟨rfl, rfl⟩ := List.cons.inj heq
        rw [iterations] at hb
        obtain ⟨text, after, htext, hb⟩ := outcome_bind_eq_ok_iff.1 hb
        obtain ⟨texts', final', hb', hpure⟩ := outcome_bind_eq_ok_iff.1 hb
        obtain ⟨-, rfl⟩ := Prod.mk.inj (Except.ok.inj hpure)
        refine .inr ⟨text, after, htext, outcome_bind_eq_error_iff.2 (.inl (ih.2 ?_))⟩
        exact ⟨before, key', behind, texts', _, rfl, hb',
          by rwa [List.length_cons, ← Nat.add_assoc, Nat.add_right_comm] at hfail⟩

theorem outcome_endBlock_eq_error_iff {name : Text} {body : List Line} :
    outcome (endBlock walker chain name body line) session = .error e ↔
      Fails walker chain session name ⟨.block, body⟩ e := by
  rw [endBlock, outcome_bind_eq_error_iff, outcome_transient_eq_error_iff]
  constructor
  · rintro (hfail | ⟨content, after, -, h⟩)
    · exact hfail
    · -- nothing fails once the body is rendered
      rw [outcome_bind, outcome_get] at h
      simp only [Except.bind] at h
      split at h
      · cases h
      · split at h <;> cases h
  · exact .inl

theorem outcome_endCondition_eq_error_iff {expression : Text} {body : List Line} :
    outcome (endCondition context walker chain expression body line) session = .error e ↔
      Condition.evaluate expression context = .ok true ∧
        Fails walker chain session expression ⟨.branch, body⟩ e := by
  unfold endCondition
  cases Condition.evaluate expression context with
  | error e' => simp
  | ok holds =>
    cases holds with
    | false => simp
    | true =>
      simp only [outcome_bind_eq_error_iff, outcome_transient_eq_error_iff, true_and]
      constructor
      · rintro (hfail | ⟨text, after, -, hpure⟩)
        · exact hfail
        · cases hpure
      · exact .inl

theorem outcome_endLoop_eq_error_iff {header : LoopHeader} {body : List Line} :
    outcome (endLoop context walker chain header body line) session = .error e ↔
      loopKeys context header = .error e ∨ ∃ before key behind texts after,
        loopKeys context header = .ok (before ++ key :: behind) ∧
        outcome (iterations context walker chain header body 0 before) session =
          .ok (texts, after) ∧
        Fails walker chain after (header.key ++ '.' :: key)
          ⟨.iteration, (iteration context header key before.length).expand body⟩ e := by
  unfold endLoop
  cases loopKeys context header with
  | error e' => simp
  | ok keys =>
    simp only [outcome_bind_eq_error_iff, outcome_iterations_eq_error_iff, Nat.zero_add, reduceCtorEq,
      false_or, Except.ok.injEq]
    constructor
    · rintro (hfail | ⟨texts, after, -, hpure⟩)
      · exact hfail
      · cases hpure
    · exact .inl

theorem loopKeys_eq_error_iff {header : LoopHeader} :
    loopKeys context header = .error e ↔ context.get? header.collection = none ∧
      header.isNested = false ∧ e = .missingCollection header.collection := by
  unfold loopKeys
  cases context.get? header.collection with
  | some collection => simp
  | none =>
    cases header.isNested with
    | true => simp
    | false => simp [eq_comm]

/-- What becomes of a body that is closed fails if and only if the body is that of a loop over a
collection that is missing, or one of the walks that it starts fails. -/
theorem outcome_close_eq_error_iff {construct : Construct} {body : List Line} :
    outcome (close context walker chain body line construct) session = .error e ↔
      (∃ header, construct = .loop header.variableName header.collection ∧
        loopKeys context header = .error e) ∨
      ∃ name layer after, Closing context walker chain session body construct name layer after ∧
        Fails walker chain after name layer e := by
  cases construct with
  | block name =>
    rw [close, outcome_endBlock_eq_error_iff]
    constructor
    · intro hfail
      exact .inr ⟨name, _, _, .block, hfail⟩
    · rintro (⟨header, hloop, -⟩ | ⟨name', layer, after, hstart, hfail⟩)
      · cases hloop
      · cases hstart
        exact hfail
  | condition expression =>
    rw [close, outcome_endCondition_eq_error_iff]
    constructor
    · rintro ⟨he, hfail⟩
      exact .inr ⟨expression, _, _, .branch he, hfail⟩
    · rintro (⟨header, hloop, -⟩ | ⟨name', layer, after, hstart, hfail⟩)
      · cases hloop
      · cases hstart with
        | branch he => exact ⟨he, hfail⟩
  | loop variableName collection =>
    rw [close, outcome_endLoop_eq_error_iff]
    constructor
    · rintro (hk | ⟨before, key, behind, texts, after, hk, hb, hfail⟩)
      · exact .inl ⟨⟨variableName, collection⟩, rfl, hk⟩
      · exact .inr ⟨_, _, after, .iteration hk hb, hfail⟩
    · rintro (⟨header, hloop, hk⟩ | ⟨name', layer, after, hstart, hfail⟩)
      · cases hloop
        exact .inl hk
      · cases hstart with
        | iteration hk hb => exact .inr ⟨_, _, _, _, _, hk, hb, hfail⟩

/-! ## Lines that fail -/

theorem not_closes (hc : session.capture = none) {construct : Construct} {body : List Line} :
    ¬ session.Closes line construct body := by
  rintro ⟨capture, hcap, -⟩
  rw [hc] at hcap
  cases hcap

/-- A line closes one body at most. -/
theorem eq_of_closes {construct construct' : Construct} {body body' : List Line}
    (h : session.Closes line construct body) (h' : session.Closes line construct' body') :
    construct' = construct ∧ body' = body := by
  obtain ⟨capture, hc, hf⟩ := h
  obtain ⟨capture', hc', hf'⟩ := h'
  rw [hc] at hc'
  obtain rfl := Option.some.inj hc'
  rw [hf] at hf'
  exact ⟨(Capture.Step.closed.inj hf').1.symm, (Capture.Step.closed.inj hf').2.symm⟩

theorem ne_none_of_closes {construct : Construct} {body : List Line}
    (h : session.Closes line construct body) : session.capture ≠ none :=
  fun hc => not_closes hc h

theorem raises_iff_of_idle (hc : session.capture = none) (hr : line.rendered = false) :
    Raises engine context session line e ↔
      outcome (dispatch engine context walker chain [.inherits] line) session = .error e := by
  rw [outcome_dispatch_inherits_eq_error_iff hr hc]
  constructor
  · intro h
    cases h with
    | parent ht hx hl => exact ⟨_, ht, by rw [hx]; exact hl⟩
    | cycle ht hx => exact ⟨_, ht, by rw [hx]; rfl⟩
    | collection hcl => exact absurd hcl (not_closes hc)
  · rintro ⟨parent, ht, h⟩
    cases hx : session.extended.contains parent with
    | true =>
      rw [hx] at h
      obtain rfl : e = .inheritanceCycle parent := h
      exact .cycle ht hx
    | false =>
      rw [hx] at h
      exact .parent ht hx h

theorem raises_iff_of_closes {construct : Construct} {body : List Line}
    (h : session.Closes line construct body) :
    Raises engine context session line e ↔
      ∃ header, construct = .loop header.variableName header.collection ∧
        loopKeys context header = .error e := by
  simp only [loopKeys_eq_error_iff]
  constructor
  · intro hraise
    cases hraise with
    | parent ht => exact absurd ht.idle (ne_none_of_closes h)
    | cycle ht => exact absurd ht.idle (ne_none_of_closes h)
    | collection hcl hn hg => exact ⟨_, (eq_of_closes hcl h).1, hg, hn, rfl⟩
  · rintro ⟨header, rfl, hg, hn, rfl⟩
    exact .collection h hn hg

theorem starts_iff_of_closes {construct : Construct} {body : List Line}
    (h : session.Closes line construct body) {name : Text} {layer : Layer} {after : Session} :
    Starts engine context walker chain session line name layer after ↔
      Closing context walker chain session.released body construct name layer after := by
  constructor
  · intro hs
    cases hs with
    | closing hcl hs =>
      obtain ⟨rfl, rfl⟩ := eq_of_closes h hcl
      exact hs
    | inclusion hc => exact absurd hc (ne_none_of_closes h)
  · exact .closing h

theorem outcome_dispatch_includes_eq_error_iff {original : Line} {before : Session}
    (hc : before.capture = none) (hr : original.rendered = false)
    (hi : outcome (dispatch engine context walker chain [.inherits] original) before =
      .ok (line, session)) :
    outcome (dispatch engine context walker chain [.includes] line) session = .error e ↔
      ∃ name layer after, Starts engine context walker chain before original name layer after ∧
        Fails walker chain after name layer e := by
  obtain ⟨hr', hc'⟩ := stage_inherits hr hc hi
  have hsplice : outcome (dispatch engine context walker chain [.includes] line) session = .error e ↔
      outcome (splice engine walker chain
        (Pattern.cut (Directive.includes.pattern.scan line.text)).2) session = .error e := by
    rw [outcome_dispatch_single .includes hr' hc']
    cases ho : Directive.includes.occursIn line.text with
    | true =>
      rw [if_pos rfl, apply, outcome_includeLine, Except.map_eq_error_iff]
    | false =>
      cases ht : Pattern.cut (Directive.includes.pattern.scan line.text) with
      | mk front tags =>
        cases tags with
        | nil => simp [splice]
        | cons entry rest =>
          rw [Directive.occursIn, Pattern.occursIn_of_cut ht] at ho
          cases ho
  rw [hsplice, outcome_splice_eq_error_iff]
  constructor
  · rintro ⟨front, tag, gap, behind, tail, after, ht, hb, hfail⟩
    obtain ⟨hn, lines, hl, hfail⟩ := outcome_included_eq_error_iff.1 hfail
    exact ⟨_, _, after, .inclusion hc hr hi ht hb hn hl, hfail⟩
  · rintro ⟨name, layer, after, hstart, hfail⟩
    cases hstart with
    | closing hcl _ => exact absurd hcl (not_closes hc)
    | inclusion _ _ hi' ht hb hn hl =>
      rw [hi] at hi'
      cases hi'
      exact ⟨_, _, _, _, _, _, ht, hb, outcome_included_eq_error_iff.2 ⟨hn, _, hl, hfail⟩⟩

/-- **A line fails** if and only if it raises an error of its own, or one of the walks that it
starts fails. -/
theorem outcome_handle_eq_error_iff :
    outcome (handle engine context walker chain line) session = .error e ↔
      Raises engine context session line e ∨ ∃ name layer after,
        Starts engine context walker chain session line name layer after ∧
          Fails walker chain after name layer e := by
  cases hc : session.capture with
  | none =>
    rw [outcome_handle_idle hc]
    cases hr : line.rendered with
    | true =>
      rw [outcome_dispatch_rendered _ hr]
      constructor
      · intro h
        cases h
      · rintro (hraise | ⟨name, layer, after, hstart, -⟩)
        · cases hraise with
          | parent ht => exact absurd hr (by simp [ht.not_rendered])
          | cycle ht => exact absurd hr (by simp [ht.not_rendered])
          | collection hcl => exact absurd hcl (not_closes hc)
        · cases hstart with
          | closing hcl => exact absurd hcl (not_closes hc)
          | inclusion _ hr' => exact absurd hr (by simp [hr'])
    | false =>
      rw [outcome_dispatch_order hr hc, raises_iff_of_idle hc hr, Except.bind_eq_error_iff]
      refine or_congr_right ⟨?_, ?_⟩
      · rintro ⟨p, hi, h⟩
        exact (outcome_dispatch_includes_eq_error_iff hc hr hi).1 (Except.map_eq_error_iff.1 h)
      · rintro ⟨name, layer, after, hs, hfail⟩
        have hstarted := hs
        cases hs with
        | closing hcl => exact absurd hcl (not_closes hc)
        | inclusion _ _ hi =>
          have hincludes := (outcome_dispatch_includes_eq_error_iff hc hr hi).2
            ⟨_, _, after, hstarted, hfail⟩
          exact ⟨_, hi, Except.map_eq_error_iff.2 hincludes⟩
  | some capture =>
    cases hf : capture.feed line with
    | closed construct body =>
      have hcl : session.Closes line construct body := ⟨capture, hc, hf⟩
      simp only [raises_iff_of_closes hcl, starts_iff_of_closes hcl]
      rw [outcome_handle_of_closes hcl]
      exact outcome_close_eq_error_iff
    | held capture' =>
      rw [handle, outcome_bind, outcome_get]
      simp only [Except.bind, hc, hf]
      have hopen : ∀ construct body, ¬ session.Closes line construct body := by
        rintro construct body ⟨capture'', hc'', hf''⟩
        rw [hc] at hc''
        obtain rfl := Option.some.inj hc''
        rw [hf] at hf''
        cases hf''
      have hbusy : session.capture ≠ none := by simp [hc]
      constructor
      · intro h
        cases h
      · rintro (hraise | ⟨name, layer, after, hstart, -⟩)
        · cases hraise with
          | parent ht => exact absurd ht.idle hbusy
          | cycle ht => exact absurd ht.idle hbusy
          | collection hcl => exact absurd hcl (hopen _ _)
        · cases hstart with
          | closing hcl => exact absurd hcl (hopen _ _)
          | inclusion hidle => exact absurd hidle hbusy

end Render

end Stencil
