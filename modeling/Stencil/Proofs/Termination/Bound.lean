import Mathlib.Data.Finset.Card
import Stencil.Proofs.Render.Settled
import Stencil.Proofs.Termination.Carry

/-!
# How deep a calm walk goes

A layer whose walk is started from another one is smaller than it. If it is a body, it weighs less,
together with what is captured, than the lines of the other layer and what was captured there
(`weight_lt_of_closing`). If it is an inclusion, there is one template less that can still be
included: a template that is being included already is not included again (`unopened_lt`). So the
depth of a walk has a bound that can be read off the session in which it starts
(`outcome_walk_ne_tooDeep`).
-/

namespace Stencil

/-- The name of the layer of an inclusion. -/
def inclusionLayer (name : Text) : Text := Stack.fullName LayerKind.inclusion.label? name

theorem inclusionLayer_ne_mainName (name : Text) : inclusionLayer name ≠ mainName := by
  intro h
  have h' := congrArg List.head? h
  simp [mainName, inclusionLayer, Stack.fullName, LayerKind.label?] at h'

/-- The number of partial templates that are not being included. -/
def unopened (partials : Finset Text) (chain : Chain) : Nat :=
  (partials.filter fun name => inclusionLayer name ∉ chain).card

section Unopened

variable {partials : Finset Text} {chain : Chain}

theorem filter_cons_subset (partials : Finset Text) (chain : Chain) (full : Text) :
    (partials.filter fun name => inclusionLayer name ∉ full :: chain) ⊆
      partials.filter fun name => inclusionLayer name ∉ chain := by
  intro name hname
  rw [Finset.mem_filter] at hname ⊢
  exact ⟨hname.1, fun hm => hname.2 (List.mem_cons_of_mem full hm)⟩

theorem unopened_cons_le (partials : Finset Text) (chain : Chain) (full : Text) :
    unopened partials (full :: chain) ≤ unopened partials chain :=
  Finset.card_le_card (filter_cons_subset partials chain full)

/-- A template that is included is one that was not being included before. -/
theorem unopened_lt {name : Text} (hm : name ∈ partials) (hn : inclusionLayer name ∉ chain) :
    unopened partials (inclusionLayer name :: chain) < unopened partials chain := by
  apply Finset.card_lt_card
  rw [Finset.ssubset_iff_of_subset (filter_cons_subset partials chain _)]
  refine ⟨name, Finset.mem_filter.2 ⟨hm, hn⟩, ?_⟩
  intro hopen
  exact (Finset.mem_filter.1 hopen).2 List.mem_cons_self

end Unopened

namespace Session

variable {engine : Engine} {active chain : Chain} {tail : List (Text × LayerKind)} {taken : Nat}
  {session : Session}

/-- The layers of the tail are being walked, except perhaps that of the template asked for. -/
def Walked (tail : List (Text × LayerKind)) (chain : Chain) : Prop :=
  ∀ full ∈ tail.map Prod.fst, full = mainName ∨ full ∈ chain

theorem Walked.topped (h : Walked tail chain) (full : Text) (kind : LayerKind) :
    Walked (tail ++ [(full, kind)]) (full :: chain) := by
  intro name hname
  rw [List.map_append, List.mem_append] at hname
  rcases hname with hold | hnew
  · exact (h name hold).imp_right (List.mem_cons_of_mem full)
  · obtain rfl : name = full := by simpa using hnew
    exact .inr List.mem_cons_self

theorem held_topped (session : Session) (name : Text) (layer : Layer) :
    (session.topped name layer).held = session.held := rfl

/-- The layer of an inclusion has the name of the template. -/
theorem Stands.transientName_inclusion (h : session.Stands engine active tail taken)
    (hw : Walked tail chain) {name : Text} (hn : inclusionLayer name ∉ chain) (lines : List Text) :
    session.transientName name (Layer.ofSource .inclusion lines) = inclusionLayer name := by
  have hfree : session.layers.contains (inclusionLayer name) = false := by
    rw [Stack.contains_eq_false_iff, Stack.names_eq_outline, h.outline_eq, List.map_append,
      List.mem_append]
    rintro (hp | ht)
    · obtain ⟨parent, -, -, heq⟩ := mem_map_parentLayers.1 hp
      have hkind : LayerKind.inclusion ≠ .parent := by simp
      exact fullName_ne_parentLayer hkind name parent heq.symm
    · rcases hw _ ht with hmain | hchain
      · exact inclusionLayer_ne_mainName name hmain
      · exact hn hchain
  have hlabel : session.transientName name (Layer.ofSource .inclusion lines) =
      Stack.fullName (some "include".toList) (session.layers.freshName "include".toList name) := rfl
  rw [hlabel, Stack.freshName_of_free hfree]
  rfl

end Session

namespace Render

variable {engine : Engine} {context : Context} {rounds size depth : Nat} {partials : Finset Text}
  {chain : Chain} {session started : Session} {line : Line} {name : Text} {layer : Layer} {e : Error}

/-- Nothing that is raised is that layers are nested too deep. -/
theorem Raises.ne_tooDeep (h : Raises engine context session line e) : e ≠ .tooDeep := by
  cases h with
  | parent ht hx hl =>
    obtain ⟨detail, rfl⟩ := Engine.exists_of_loadLines_error hl
    simp
  | cycle => simp
  | collection => simp

/-- Bounds on what there is to walk: the keys of a loop, the templates that can be included, and the
weight of one of them. -/
structure Bounded (engine : Engine) (context : Context) (rounds size : Nat)
    (partials : Finset Text) : Prop where
  keys_le : Rounds context rounds
  mem_partials : ∀ {name : Text} {lines : List Text},
    engine.loadLines name engine.includesDir = .ok lines → name ∈ partials
  weight_le : ∀ {name : Text} {lines : List Text},
    engine.loadLines name engine.includesDir = .ok lines →
      weight rounds 0 (Layer.ofSource .inclusion lines).lines ≤ size

/-- What the session stands on where a line starts a walk. -/
theorem stands_of_starts {active : Chain} {tail : List (Text × LayerKind)} {taken : Nat}
    (h : session.Stands engine active tail taken)
    (hs : Starts engine context (walk engine context depth) chain session line name layer started) :
    started.Stands engine active tail taken ∧ layer.kind ≠ .parent := by
  have hw : ∀ {active : Chain} {tail : List (Text × LayerKind)} {taken : Nat} {session : Session}
      (chain : Chain), session.Stands engine active tail taken →
      Keeps engine active tail taken (walk engine context depth chain) session :=
    fun chain hstands => keeps_walk hstands depth chain
  cases hs with
  | closing hc hs =>
    have hreleased : session.released.Stands engine active tail taken := h.congr rfl rfl rfl rfl
    cases hs with
    | block => exact ⟨hreleased, by simp⟩
    | branch => exact ⟨hreleased, by simp⟩
    | iteration hk hb => exact ⟨(keeps_iterations hw hreleased _ _ _ _ _).of_outcome_ok hb, by simp⟩
  | inclusion hc hr hi ht hb hn hl =>
    have hinherited := (keeps_dispatch hw h chain [.inherits] line).of_outcome_ok hi
    have hidle := (stage_inherits hr hc hi).2
    exact ⟨((keepsIdle_splice hw hinherited hidle chain _).of_outcome_ok hb).1,
      by simp [Layer.ofSource]⟩

/-- **The layer of a body that is closed** weighs less than the lines that were handled, and what was
captured before, each with what is captured. -/
theorem weight_lt_of_closing (hrounds : Rounds context rounds) (hg : session.Grown)
    (hline : CalmLine engine context depth chain session line) {construct : Construct}
    {body : List Line} (hc : session.Closes line construct body)
    (hs : Closing context (walk engine context depth) chain session.released body construct name layer
      started) (loops : Nat) :
    started.Grown ∧
      weight rounds loops (started.held ++ layer.lines) <
        weight rounds loops (session.held ++ [line]) := by
  cases hs with
  | block =>
    refine ⟨Session.grown_of_idle rfl, ?_⟩
    rw [Session.held_of_idle rfl, List.nil_append]
    exact hg.closed_other hc (by simp [Construct.directive]) hline.keeps rounds loops
  | branch =>
    refine ⟨Session.grown_of_idle rfl, ?_⟩
    rw [Session.held_of_idle rfl, List.nil_append]
    exact hg.closed_other hc (by simp [Construct.directive]) hline.keeps rounds loops
  | @iteration header before behind key texts _ hk hb =>
    have hcarried := carries_iterations (carries_walk engine hrounds depth) hg hc hline hk hb loops
    obtain ⟨hloops, hweight⟩ := hline.weight_expand hc hk rounds loops
    obtain ⟨hbody, hlt⟩ := hg.closed_loop hc rounds loops
    refine ⟨hcarried.grown, ?_⟩
    have hlength := hrounds _ _ hk
    rw [List.length_append, List.length_cons] at hlength
    calc weight rounds loops (started.held ++ ((iteration context header key before.length).expand
          body))
        = weight rounds loops started.held + weight rounds loops body := by
          rw [weight_append, hloops, hbody, hweight]
      _ ≤ before.length * weight rounds loops body + weight rounds loops body :=
          Nat.add_le_add_right hcarried.weight_le _
      _ = (before.length + 1) * weight rounds loops body := by rw [Nat.add_mul, Nat.one_mul]
      _ ≤ (rounds + 1) * weight rounds loops body := Nat.mul_le_mul_right _ (by omega)
      _ < weight rounds loops (session.held ++ [line]) := hlt

/-- How many levels the walk of a layer asks for at most: for each template that can still be included
as many as one of them needs, and as many as the lines weigh. -/
def levels (rounds size : Nat) (partials : Finset Text) (chain : Chain) (loops : Nat)
    (lines : List Line) : Nat :=
  unopened partials chain * (size + 1) + weight rounds loops lines

/-- **A walk that a line starts** asks for fewer levels than the line. -/
theorem levels_lt_of_starts (hb : Bounded engine context rounds size partials)
    {active : Chain} {tail : List (Text × LayerKind)} {taken : Nat}
    (hstands : session.Stands engine active tail taken) (hwalked : Session.Walked tail chain)
    (hg : session.Grown) (hline : CalmLine engine context depth chain session line)
    (hs : Starts engine context (walk engine context depth) chain session line name layer started)
    (loops : Nat) :
    started.Grown ∧ ∃ loops', levels rounds size partials (started.transientName name layer :: chain)
      loops' (started.held ++ layer.lines) <
        levels rounds size partials chain loops (session.held ++ [line]) := by
  have hafter := (stands_of_starts hstands hs).1
  unfold levels
  cases hs with
  | closing hc hs =>
    obtain ⟨hgrown, hbody⟩ := weight_lt_of_closing hb.keys_le hg hline hc hs loops
    have hopen := Nat.mul_le_mul_right (size + 1)
      (unopened_cons_le partials chain (started.transientName name layer))
    exact ⟨hgrown, loops, by omega⟩
  | @inclusion line' inherited _ _ _ tag _ _ lines hc hr hi ht hs hn hload =>
    have hidle : started.capture = none := capture_of_splice (stage_inherits hr hc hi).2 hs
    have hnew : inclusionLayer (unquote tag.argument) ∉ chain := by
      simpa [inclusionLayer] using hn
    have hopen := Nat.mul_le_mul_right (size + 1) (unopened_lt (hb.mem_partials hload) hnew)
    rw [Nat.succ_mul] at hopen
    have hsize := hb.weight_le hload
    refine ⟨Session.grown_of_idle hidle, 0, ?_⟩
    rw [hafter.transientName_inclusion hwalked hnew, Session.held_of_idle hidle, List.nil_append]
    omega

/-- The line that a walk has come to weighs no more, with what is captured there, than the lines of
the layer with what was captured before. -/
theorem weight_le_of_comes (hrounds : Rounds context rounds) (hg : session.Grown) {outer : Chain}
    (hcalm : Calm engine context (depth + 1) (name :: outer) session)
    (hget : session.layers.get? name = some layer) {before behind : List Line}
    (hl : layer.lines = before ++ line :: behind) {between : Session}
    (hb : outcome (handleFrom engine context (walk engine context depth) (name :: outer) name 0
      before) (session.entered name) = .ok ((), between)) (loops : Nat) :
    between.Grown ∧ weight rounds (loopsAround loops behind) (between.held ++ [line]) ≤
      weight rounds loops (session.held ++ layer.lines) := by
  have hcarried := carries_handleFrom (carries_walk engine hrounds depth) hrounds hg hcalm hget hl hb
    (loopsAround loops (line :: behind))
  refine ⟨hcarried.grown, ?_⟩
  have hhandled : weight rounds (loopsAround loops behind) (between.held ++ [line]) =
      weight rounds (loopsAround loops (line :: behind)) between.held +
        weight rounds (loopsAround loops behind) [line] := weight_append ..
  have hall : weight rounds loops (session.held ++ layer.lines) =
      weight rounds (loopsAround loops (line :: behind)) (session.held ++ before) +
        weight rounds loops (line :: behind) := by
    rw [hl, ← List.append_assoc, weight_append]
  have hbehind : weight rounds loops (line :: behind) =
      weight rounds (loopsAround loops behind) [line] + weight rounds loops behind :=
    weight_append rounds loops [line] behind
  have hle := hcarried.weight_le
  omega

/-- **A calm walk is not too deep** if there are more levels left than it asks for. -/
theorem outcome_walk_ne_tooDeep (hb : Bounded engine context rounds size partials) {outer : Chain}
    {active : Chain} {tail : List (Text × LayerKind)} {taken loops : Nat}
    (hcalm : Calm engine context depth (name :: outer) session)
    (hstands : session.Stands engine active tail taken)
    (hwalked : Session.Walked tail (name :: outer)) (hg : session.Grown)
    (hget : session.layers.get? name = some layer)
    (hlt : levels rounds size partials (name :: outer) loops (session.held ++ layer.lines) < depth) :
    outcome (walk engine context depth (name :: outer)) session ≠ .error .tooDeep := by
  induction depth generalizing name outer active tail loops session layer with
  | zero => exact absurd hlt (Nat.not_lt_zero _)
  | succ depth ih =>
    intro h
    obtain ⟨line, between, hcomes, hfail⟩ := outcome_walk_succ_eq_error_iff.1 h
    have hline := hcalm.calmLine hcomes
    rcases outcome_handle_eq_error_iff.1 hfail with hraise | ⟨name', layer', started, hstart, hfails⟩
    · exact hraise.ne_tooDeep rfl
    · -- the line starts a walk that is too deep, and that walk asks for fewer levels
      obtain @⟨_, _, _, _, _, _, before, behind, hget', hl, hbefore⟩ := hcomes
      obtain rfl := Option.some.inj (hget.symm.trans hget')
      have hbetween : between.Stands engine (name :: active) tail taken :=
        (keeps_handleFrom (fun chain hs => keeps_walk hs depth chain) (hstands.entering name) _ _ _
          _).of_outcome_ok hbefore
      obtain ⟨hafter, hkind⟩ := stands_of_starts hbetween hstart
      obtain ⟨hgrown, hweight⟩ := weight_le_of_comes hb.keys_le hg hcalm hget hl hbefore loops
      obtain ⟨hgrown', loops', hlevels⟩ :=
        levels_lt_of_starts hb hbetween hwalked hgrown hline hstart (loopsAround loops behind)
      have hrank : levels rounds size partials (started.transientName name' layer' :: name :: outer)
          loops' ((started.topped name' layer').held ++ layer'.lines) < depth := by
        rw [Session.held_topped]
        unfold levels at hlt hlevels ⊢
        omega
      exact ih (hline.calm hstart) (hafter.topped name' (fullName_ne_parentLayer hkind))
        (hwalked.topped _ _) (hgrown'.congr rfl) (Stack.get?_insert_self ..) hrank hfails

end Render

end Stencil
