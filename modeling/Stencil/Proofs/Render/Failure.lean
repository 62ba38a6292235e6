import Stencil.Proofs.Render.Depth
import Stencil.Proofs.Render.Handling
import Stencil.Proofs.Text.Split

/-!
# Why renders fail

A render comes to a line if it walks the layer of the line and has handled the lines before it
(`Render.Handles`); the layer is that of the template asked for, that of a parent whose turn has
come (`Render.Turn`), or one whose walk another line has started.

A render fails with an error if and only if it comes to a line that raises the error, or cannot load
the template it was asked for (`outcome_load_eq_error_iff`). What can be raised is little, and
`Engine.Documented` lists it: `ends_or_nests` says that a render comes to a page, fails for one of
these reasons, or never ends because its layers are nested without end.
-/

namespace Stencil

namespace Render

variable {engine : Engine} {context : Context} {session : Session} {e : Error}

/-! ## The lines a walk comes to -/

/-- The walk of a layer comes to a line of the layer, which it handles in the session `after`. -/
inductive Comes (engine : Engine) (context : Context) (depth : Nat) :
    Chain → Session → Line → Session → Prop where
  | intro {name : Text} {outer : Chain} {session after : Session} {layer : Layer} {line : Line}
    {before behind : List Line} (hg : session.layers.get? name = some layer)
    (hl : layer.lines = before ++ line :: behind)
    (hb : outcome (handleFrom engine context (walk engine context depth) (name :: outer) name 0
      before) (session.entered name) = .ok ((), after)) :
    Comes engine context depth (name :: outer) session line after

/-- A walk comes to a line, in its own layer or in one whose walk it leads to. -/
inductive Handles (engine : Engine) (context : Context) :
    (depth : Nat) → Chain → Session → Line → Session → Prop where
  | own {depth : Nat} {chain : Chain} {session after : Session} {line : Line}
    (hc : Comes engine context depth chain session line after) :
    Handles engine context (depth + 1) chain session line after
  | inner {depth : Nat} {chain : Chain} {session between started after : Session}
    {line line' : Line} {name : Text} {layer : Layer}
    (hc : Comes engine context depth chain session line between)
    (hs : Starts engine context (walk engine context depth) chain between line name layer started)
    (hh : Handles engine context depth (started.transientName name layer :: chain)
      (started.topped name layer) line' after) :
    Handles engine context (depth + 1) chain session line' after

theorem outcome_handleFrom_eq_error_iff {walker : Walker} {chain : Chain} {name : Text}
    {position : Nat} {lines : List Line} :
    outcome (handleFrom engine context walker chain name position lines) session = .error e ↔
      ∃ before line behind after, lines = before ++ line :: behind ∧
        outcome (handleFrom engine context walker chain name position before) session =
          .ok ((), after) ∧
        outcome (handle engine context walker chain line) after = .error e := by
  induction lines generalizing position session with
  | nil =>
    constructor
    · intro h
      cases h
    · rintro ⟨before, line, behind, after, h, -⟩
      exact absurd h (by simp)
  | cons line rest ih =>
    rw [outcome_handleFrom_cons, Except.bind_eq_error_iff]
    constructor
    · rintro (hfail | ⟨p, hh, h⟩)
      · exact ⟨[], line, rest, session, rfl, rfl, hfail⟩
      · obtain ⟨before, line', behind, after, rfl, hb, hfail⟩ := ih.1 h
        refine ⟨line :: before, line', behind, after, rfl, ?_, hfail⟩
        rw [outcome_handleFrom_cons, hh]
        exact hb
    · rintro ⟨before, line', behind, after, heq, hb, hfail⟩
      cases before with
      | nil =>
        obtain ⟨rfl, rfl⟩ := List.cons.inj heq
        cases hb
        exact .inl hfail
      | cons _ before =>
        obtain ⟨rfl, rfl⟩ := List.cons.inj heq
        rw [outcome_handleFrom_cons] at hb
        obtain ⟨p, hh, hb⟩ := Except.bind_eq_ok_iff.1 hb
        exact .inr ⟨p, hh, ih.2 ⟨before, line', behind, after, rfl, hb, hfail⟩⟩

/-- The walk of a layer fails if and only if one of the lines it comes to does. -/
theorem outcome_walk_succ_eq_error_iff {depth : Nat} {chain : Chain} :
    outcome (walk engine context (depth + 1) chain) session = .error e ↔
      ∃ line after, Comes engine context depth chain session line after ∧
        outcome (handle engine context (walk engine context depth) chain line) after =
          .error e := by
  cases chain with
  | nil =>
    constructor
    · intro h
      cases h
    · rintro ⟨line, after, hc, -⟩
      cases hc
  | cons name outer =>
    cases hg : session.layers.get? name with
    | none =>
      rw [outcome_walk_of_none hg]
      constructor
      · intro h
        cases h
      · rintro ⟨line, after, hc, -⟩
        cases hc with
        | intro hg' =>
          rw [hg] at hg'
          cases hg'
    | some layer =>
      rw [outcome_walk_of_get? hg, Except.map_eq_error_iff, outcome_handleFrom_eq_error_iff]
      constructor
      · rintro ⟨before, line, behind, after, hl, hb, hfail⟩
        exact ⟨line, after, .intro hg hl hb, hfail⟩
      · rintro ⟨line, after, hc, hfail⟩
        cases hc with
        | intro hg' hl hb =>
          rw [hg] at hg'
          obtain rfl := Option.some.inj hg'
          exact ⟨_, line, _, after, hl, hb, hfail⟩

/-- **A walk fails** if and only if it comes to a line that raises the error, unless the layers are
nested too deep. -/
theorem outcome_walk_eq_error_iff (he : e ≠ .tooDeep) {depth : Nat} {chain : Chain} :
    outcome (walk engine context depth chain) session = .error e ↔
      ∃ line after, Handles engine context depth chain session line after ∧
        Raises engine context after line e := by
  induction depth generalizing chain session with
  | zero =>
    constructor
    · intro h
      exact absurd (Except.error.inj h).symm he
    · rintro ⟨line, after, hh, -⟩
      cases hh
  | succ depth ih =>
    rw [outcome_walk_succ_eq_error_iff]
    simp only [outcome_handle_eq_error_iff, Fails, ih]
    constructor
    · rintro ⟨line, after, hc, hraise | ⟨name, layer, started, hs, line', final, hh, hraise⟩⟩
      · exact ⟨line, after, .own hc, hraise⟩
      · exact ⟨line', final, .inner hc hs hh, hraise⟩
    · rintro ⟨line, after, hh, hraise⟩
      cases hh with
      | own hc => exact ⟨line, after, hc, .inl hraise⟩
      | inner hc hs hh => exact ⟨_, _, hc, .inr ⟨_, _, _, hs, line, after, hh, hraise⟩⟩

/-! ## The layers whose turn comes -/

/-- The turn of a parent comes, of at most `count` that wait in the session. -/
inductive ParentTurn (engine : Engine) (context : Context) (depth : Nat) :
    (count : Nat) → Session → Chain → Session → Prop where
  | first {count : Nat} {session : Session} {name : Text} {rest : List Text}
    (hp : session.pending = name :: rest) :
    ParentTurn engine context depth (count + 1) session (name :: session.active)
      { session with pending := rest }
  | later {count : Nat} {session after start : Session} {name : Text} {rest : List Text}
    {chain : Chain} (hp : session.pending = name :: rest)
    (hw : outcome (walk engine context depth (name :: session.active))
      { session with pending := rest } = .ok ((), after))
    (ht : ParentTurn engine context depth count after chain start) :
    ParentTurn engine context depth (count + 1) session chain start

/-- The turn of a layer comes when a template is loaded: first that of the template itself, and then
those of the parents that it and they extend. -/
inductive Turn (engine : Engine) (context : Context) (depth : Nat) (name : Text)
    (session : Session) : Chain → Session → Prop where
  | main {lines : List Text} (hl : engine.loadLines name [] = .ok lines) :
    Turn engine context depth name session (mainName :: session.active) (session.loading lines)
  | parent {lines : List Text} {after start : Session} {chain : Chain}
    (hl : engine.loadLines name [] = .ok lines)
    (hw : outcome (walk engine context depth (mainName :: session.active)) (session.loading lines) =
      .ok ((), after))
    (ht : ParentTurn engine context depth depth
      { after with layers := after.layers.clean mainName } chain start) :
    Turn engine context depth name session chain start

/-- The walks of the parents fail if and only if the walk of a parent whose turn comes does. -/
theorem outcome_walkParents_eq_error_iff (he : e ≠ .tooDeep) {depth count : Nat} :
    outcome (walkParents engine context depth count) session = .error e ↔
      ∃ chain start, ParentTurn engine context depth count session chain start ∧
        outcome (walk engine context depth chain) start = .error e := by
  induction count generalizing session with
  | zero =>
    constructor
    · intro h
      cases hp : session.pending with
      | nil =>
        rw [outcome_walkParents_of_empty hp] at h
        cases h
      | cons name rest =>
        rw [outcome_walkParents_zero hp] at h
        exact absurd (Except.error.inj h).symm he
    · rintro ⟨chain, start, ht, -⟩
      cases ht
  | succ count ih =>
    cases hp : session.pending with
    | nil =>
      rw [outcome_walkParents_of_empty hp]
      constructor
      · intro h
        cases h
      · rintro ⟨chain, start, ht, -⟩
        cases ht with
        | first hp' => rw [hp] at hp'; cases hp'
        | later hp' => rw [hp] at hp'; cases hp'
    | cons name rest =>
      rw [outcome_walkParents_cons hp, Except.bind_eq_error_iff]
      constructor
      · rintro (hfail | ⟨⟨⟨⟩, after⟩, hw, h⟩)
        · exact ⟨_, _, .first hp, hfail⟩
        · obtain ⟨chain, start, ht, hfail⟩ := ih.1 h
          exact ⟨chain, start, .later hp hw ht, hfail⟩
      · rintro ⟨chain, start, ht, hfail⟩
        cases ht with
        | first hp' =>
          rw [hp] at hp'
          cases hp'
          exact .inl hfail
        | later hp' hw ht =>
          rw [hp] at hp'
          cases hp'
          exact .inr ⟨_, hw, ih.2 ⟨chain, start, ht, hfail⟩⟩

/-- The load of a template fails if and only if the template cannot be loaded or a walk whose turn
comes fails. -/
theorem outcome_load_eq_error_iff (he : e ≠ .tooDeep) {name : Text} {depth : Nat} :
    outcome (load engine context depth name) session = .error e ↔
      engine.loadLines name [] = .error e ∨
        ∃ chain start, Turn engine context depth name session chain start ∧
          outcome (walk engine context depth chain) start = .error e := by
  rw [outcome_load_eq, Except.bind_eq_error_iff]
  refine or_congr_right ⟨?_, ?_⟩
  · rintro ⟨lines, hl, h⟩
    rcases Except.bind_eq_error_iff.1 h with hfail | ⟨⟨⟨⟩, after⟩, hw, h⟩
    · exact ⟨_, _, .main hl, hfail⟩
    · obtain ⟨chain, start, ht, hfail⟩ := (outcome_walkParents_eq_error_iff he).1 h
      exact ⟨chain, start, .parent hl hw ht, hfail⟩
  · rintro ⟨chain, start, ht, hfail⟩
    cases ht with
    | main hl => exact ⟨_, hl, Except.bind_eq_error_iff.2 (.inl hfail)⟩
    | parent hl hw ht =>
      have hparents := (outcome_walkParents_eq_error_iff he).2 ⟨chain, start, ht, hfail⟩
      exact ⟨_, hl, Except.bind_eq_error_iff.2 (.inr ⟨_, hw, hparents⟩)⟩

end Render

/-! ## The errors of a render -/

namespace Engine

variable {engine : Engine} {context : Context} {name : Text} {e : Error}

theorem exists_of_load_error {loader : Loader} {files : FileTree} {subdirs : List Text}
    (h : loader.loadLines files name subdirs = .error e) :
    ∃ detail, e = .templateNotFound detail := by
  have hload : loader.load files name subdirs = .error e := Except.map_eq_error_iff.1 h
  unfold Loader.load at hload
  cases loader with
  | directory root extension =>
    simp only at hload
    split at hload
    · obtain ⟨cause, -, rfl⟩ := Except.mapError_eq_error_iff.1 hload
      exact ⟨_, rfl⟩
    · cases hload
      exact ⟨_, rfl⟩
  | table templates =>
    simp only at hload
    split at hload
    · cases hload
    · cases hload
      exact ⟨_, rfl⟩

/-- The only error of an engine that is asked for lines is that it does not find the template. -/
theorem exists_of_loadLines_error {subdirs : List Text}
    (h : engine.loadLines name subdirs = .error e) : ∃ detail, e = .templateNotFound detail := by
  have hfrom : ∀ loaders, loadFrom engine.files name subdirs loaders = .error e →
      ∃ detail, e = .templateNotFound detail := by
    intro loaders hl
    induction loaders with
    | nil =>
      cases hl
      exact ⟨_, rfl⟩
    | cons loader rest ih =>
      cases rest with
      | nil => exact exists_of_load_error hl
      | cons next rest =>
        rw [loadFrom] at hl
        split at hl
        · cases hl
        · exact ih hl
  unfold loadLines at h
  split at h
  · cases h
  · exact hfrom _ h

/-- **A render comes to a line**, and handles it in the session. -/
def Handles (engine : Engine) (context : Context) (name : Text) (line : Line)
    (session : Session) : Prop :=
  ∃ depth chain start, Render.Turn engine context depth name {} chain start ∧
    Render.Handles engine context depth chain start line session

/-- **The reasons for which a render fails.** -/
inductive Documented (engine : Engine) (context : Context) (name : Text) : Error → Prop where
  /-- The template asked for cannot be loaded. -/
  | request {detail : Text} (hl : engine.loadLines name [] = .error (.templateNotFound detail)) :
    Documented engine context name (.templateNotFound detail)
  /-- A line that is handled names a parent that cannot be loaded. -/
  | parent {line : Line} {session : Session} {parent detail : Text}
    (hh : engine.Handles context name line session) (ht : session.TakesIn line parent)
    (hx : parent ∉ session.extended)
    (hl : engine.loadLines parent [] = .error (.templateNotFound detail)) :
    Documented engine context name (.templateNotFound detail)
  /-- A line that is handled names a parent that was extended already. -/
  | cycle {line : Line} {session : Session} {parent : Text}
    (hh : engine.Handles context name line session) (ht : session.TakesIn line parent)
    (hx : parent ∈ session.extended) :
    Documented engine context name (.inheritanceCycle parent)
  /-- A line that is handled closes a loop over a top-level name that the data does not hold. -/
  | collection {line : Line} {session : Session} {variableName collection : Text}
    {body : List Line} (hh : engine.Handles context name line session)
    (hc : session.Closes line (.loop variableName collection) body)
    (hn : '.' ∉ collection) (hm : context.contains collection = false) :
    Documented engine context name (.missingCollection collection)

theorem get?_eq_none_iff {path : Text} (h : '.' ∉ path) :
    context.get? path = none ↔ context.contains path = false := by
  unfold Context.get? Context.segments Context.contains Entries.contains
  rw [Text.splitOn_of_not_mem h]
  cases hg : Entries.get? path context.entries <;> simp [hg, Context.follow?]

/-- A line that is handled raises nothing but what is documented. -/
theorem documented_of_raises {line : Line} {session : Session}
    (hh : engine.Handles context name line session)
    (hr : Render.Raises engine context session line e) : engine.Documented context name e := by
  cases hr with
  | parent ht hx hl =>
    obtain ⟨detail, rfl⟩ := exists_of_loadLines_error hl
    exact .parent hh ht (by simpa using hx) hl
  | cycle ht hx => exact .cycle hh ht (by simpa using hx)
  | @collection header body hc hn hg =>
    have hdot : '.' ∉ header.collection := by simpa [LoopHeader.isNested] using hn
    exact .collection hh hc hdot ((get?_eq_none_iff hdot).1 hg)

theorem Documented.ne_tooDeep (h : engine.Documented context name e) : e ≠ .tooDeep := by
  cases h <;> simp

/-- **A render fails** with an error if and only if that is documented. -/
theorem returns_error_iff :
    engine.Returns name context (.error e) ↔ engine.Documented context name e := by
  have hload : ∀ depth, e ≠ .tooDeep → (engine.renderWithin depth name context = .error e ↔
      engine.loadLines name [] = .error e ∨ ∃ chain start line session,
        Render.Turn engine context depth name {} chain start ∧
        Render.Handles engine context depth chain start line session ∧
        Render.Raises engine context session line e) := by
    intro depth he
    rw [renderWithin_eq_error_iff, Render.outcome_load_eq_error_iff he]
    refine or_congr .rfl ⟨?_, ?_⟩
    · rintro ⟨chain, start, ht, hfail⟩
      obtain ⟨line, session, hh, hraise⟩ := (Render.outcome_walk_eq_error_iff he).1 hfail
      exact ⟨chain, start, line, session, ht, hh, hraise⟩
    · rintro ⟨chain, start, line, session, ht, hh, hraise⟩
      exact ⟨chain, start, ht, (Render.outcome_walk_eq_error_iff he).2 ⟨line, session, hh, hraise⟩⟩
  constructor
  · rintro ⟨depth, hr, hne⟩
    have he : e ≠ .tooDeep := fun h => hne (congrArg Except.error h)
    rcases (hload depth he).1 hr with hl | ⟨chain, start, line, session, ht, hh, hraise⟩
    · obtain ⟨detail, rfl⟩ := exists_of_loadLines_error hl
      exact .request hl
    · exact documented_of_raises ⟨depth, chain, start, ht, hh⟩ hraise
  · intro hd
    have he := hd.ne_tooDeep
    have hne : (Except.error e : Except Error Text) ≠ .error .tooDeep :=
      fun h => he (Except.error.inj h)
    have hreached : ∀ {line : Line} {session : Session},
        engine.Handles context name line session →
        Render.Raises engine context session line e → engine.Returns name context (.error e) := by
      rintro line session ⟨depth, chain, start, ht, hh⟩ hraise
      exact ⟨depth, (hload depth he).2 (.inr ⟨chain, start, line, session, ht, hh, hraise⟩), hne⟩
    cases hd with
    | request hl => exact ⟨0, (hload 0 he).2 (.inl hl), hne⟩
    | parent hh ht hx hl => exact hreached hh (.parent ht (by simpa using hx) hl)
    | cycle hh ht hx => exact hreached hh (.cycle ht (by simpa using hx))
    | @collection line session variableName collection body hh hc hn hm =>
      have hc' : session.Closes line (.loop (LoopHeader.mk variableName collection).variableName
        (LoopHeader.mk variableName collection).collection) body := hc
      exact hreached hh (.collection hc' (by simpa [LoopHeader.isNested] using hn)
        ((get?_eq_none_iff hn).2 hm))

/-- **Only documented failures abort a render**: it comes to a page, or it fails for one of the
documented reasons, or else its layers are nested without end. -/
theorem ends_or_nests (engine : Engine) (name : Text) (context : Context) :
    (∃ page, engine.Returns name context (.ok page)) ∨
      (∃ e, engine.Returns name context (.error e) ∧ engine.Documented context name e) ∨
      ∀ depth, engine.renderWithin depth name context = .error .tooDeep := by
  by_cases h : ∀ depth, engine.renderWithin depth name context = .error .tooDeep
  · exact .inr (.inr h)
  · obtain ⟨depth, hne⟩ := not_forall.1 h
    cases hr : engine.renderWithin depth name context with
    | ok page => exact .inl ⟨page, depth, hr, by simp⟩
    | error e =>
      have hret : engine.Returns name context (.error e) := ⟨depth, hr, by rwa [hr] at hne⟩
      exact .inr (.inl ⟨e, hret, returns_error_iff.1 hret⟩)

end Engine

end Stencil
