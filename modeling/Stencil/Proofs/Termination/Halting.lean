import Stencil.Proofs.Render.Endless
import Stencil.Proofs.Termination.Limits

/-!
# Renders that end

If all templates are in tables, a render ends unless it comes to a line that changes how loops are
nested (`ends_or_restructures`). The template asked for is walked and then one parent after the
other. Each of these walks ends, because it is calm; and there is a limit to the parents, because a
template is not extended twice.

How deep the walk of a parent goes is known only when its turn comes, since the walks before it put
lines into its layer. That one depth is enough for all of them is due to `walk_under`.
-/

namespace Stencil

namespace Render

variable {engine : Engine} {context : Context} {rounds size depth count : Nat}
  {partials parents : Finset Text} {chain active : Chain} {session after : Session} {name : Text}
  {tail : List (Text × LayerKind)} {taken : Nat}

/-- The template asked for is walked already, or is the only layer that is being walked. -/
theorem walked_of_isMain (h : IsMain tail) (chain : Chain) : Session.Walked tail chain := by
  intro full hfull
  rcases h with rfl | rfl
  · cases hfull
  · exact .inl (by simpa using hfull)

/-- A calm walk is not too deep within some depth. -/
theorem exists_outcome_walk_ne_tooDeep (hb : Bounded engine context rounds size partials)
    {outer : Chain} (hcalm : ∀ depth, Calm engine context depth (name :: outer) session)
    (hstands : session.Stands engine active tail taken)
    (hwalked : Session.Walked tail (name :: outer)) (hg : session.Grown) :
    ∃ depth, outcome (walk engine context depth (name :: outer)) session ≠ .error .tooDeep := by
  cases hget : session.layers.get? name with
  | none =>
    refine ⟨1, ?_⟩
    rw [outcome_walk_of_none hget]
    simp
  | some layer =>
    exact ⟨_, outcome_walk_ne_tooDeep hb (hcalm _) hstands hwalked hg hget
      (Nat.lt_succ_self (levels rounds size partials (name :: outer) 0 (session.held ++ layer.lines)))⟩

theorem grown_of_walk (hrounds : Rounds context rounds) {outer : Chain}
    (hcalm : Calm engine context depth (name :: outer) session) (hg : session.Grown)
    (h : outcome (walk engine context depth (name :: outer)) session = .ok ((), after)) :
    after.Grown := by
  cases hget : session.layers.get? name with
  | none =>
    cases depth with
    | zero => cases h
    | succ depth =>
      rw [outcome_walk_of_none hget] at h
      cases h
      exact hg
  | some layer => exact (carries_walk engine hrounds depth hcalm hg hget h 0).grown

/-! ## Parents -/

/-- The walks of the parents that wait are calm. -/
def CalmParents (engine : Engine) (context : Context) (session : Session) : Prop :=
  ∀ {depth count : Nat} {chain : Chain} {start : Session},
    ParentTurn engine context depth count session chain start →
    Calm engine context depth chain start

/-- When the first of the parents has been walked, the walks of the others are still calm. -/
theorem CalmParents.next (h : CalmParents engine context session) {rest : List Text}
    (hp : session.pending = name :: rest)
    (hw : outcome (walk engine context depth (name :: session.active))
      { session with pending := rest } = .ok ((), after)) : CalmParents engine context after := by
  intro depth' count chain start ht
  have hdeep := (walk_under engine context (Nat.le_max_left depth depth') _).outcome_ok hw
  have hlater := ht.deeper (Nat.le_max_right depth depth') (Nat.le_refl count)
  exact (h (.later hp hdeep hlater)).shallower (Nat.le_max_right depth depth')

/-- The parents that were extended are among those that can be loaded. -/
theorem length_parentLayers_le
    (hparents : ∀ {name : Text} {lines : List Text}, engine.loadLines name [] = .ok lines →
      name ∈ parents)
    (hstands : session.Stands engine active tail taken) :
    (Session.parentLayers engine session.extended).length ≤ parents.card := by
  have hnodup := hstands.nodup_extended.filter fun parent => (engine.loadLines parent []).isOk
  rw [Session.parentLayers, List.length_map, ← List.toFinset_card_of_nodup hnodup]
  refine Finset.card_le_card fun parent hparent => ?_
  rw [List.mem_toFinset, List.mem_filter] at hparent
  cases hl : engine.loadLines parent [] with
  | ok lines => exact hparents hl
  | error e =>
    rw [hl] at hparent
    cases hparent.2

/-- **The walks of the parents end**, by induction on how many can still come. -/
theorem exists_outcome_walkParents_ne_tooDeep (hb : Bounded engine context rounds size partials)
    (hparents : ∀ {name : Text} {lines : List Text}, engine.loadLines name [] = .ok lines →
      name ∈ parents)
    (hcalm : CalmParents engine context session)
    (hstands : session.Stands engine active tail taken) (hm : IsMain tail) (hg : session.Grown)
    (left : Nat) (hleft : parents.card ≤ taken + left) :
    ∃ depth count, outcome (walkParents engine context depth count) session ≠ .error .tooDeep := by
  induction left generalizing session taken with
  | zero =>
    have hempty : session.pending = [] := by
      have hle := hstands.pending_le
      have hlength := length_parentLayers_le hparents hstands
      exact List.length_eq_zero_iff.1 (by omega)
    refine ⟨0, 0, ?_⟩
    rw [outcome_walkParents_of_empty hempty]
    simp
  | succ left ih =>
    cases hp : session.pending with
    | nil =>
      refine ⟨0, 0, ?_⟩
      rw [outcome_walkParents_of_empty hp]
      simp
    | cons name rest =>
      have hpopped := hstands.popping hp
      have hfirst : ∀ depth, Calm engine context depth (name :: session.active)
          { session with pending := rest } := by
        intro depth
        have hturn : ParentTurn engine context depth 1 session (name :: session.active)
          { session with pending := rest } := .first hp
        exact hcalm hturn
      obtain ⟨depth, hdepth⟩ := exists_outcome_walk_ne_tooDeep hb hfirst hpopped
        (walked_of_isMain hm _) (hg.congr rfl)
      cases hw : outcome (walk engine context depth (name :: session.active))
          { session with pending := rest } with
      | error e =>
        refine ⟨depth, 1, ?_⟩
        rw [outcome_walkParents_cons hp, hw]
        rwa [hw] at hdepth
      | ok p =>
        obtain ⟨u, next⟩ := p
        have hnext : next.Stands engine active tail (taken + 1) :=
          (keeps_walk hpopped depth (name :: session.active)).of_outcome_ok hw
        obtain ⟨depth', count, hne⟩ := ih (hcalm.next hp hw) hnext
          (grown_of_walk hb.keys_le (hfirst depth) (hg.congr rfl) hw) (by omega)
        -- the greater of the two depths is enough for both
        refine ⟨max depth depth', count + 1, ?_⟩
        rw [outcome_walkParents_cons hp,
          (walk_under engine context (Nat.le_max_left depth depth') _).outcome_ok hw]
        have hsame := (walkParents_under engine context (Nat.le_max_right depth depth')
          (Nat.le_refl count)).outcome_eq hne
        show outcome (walkParents engine context (max depth depth') count) next ≠ .error .tooDeep
        rwa [hsame]

/-! ## Loads -/

/-- **A load ends** if all walks whose turn comes are calm. -/
theorem exists_outcome_load_ne_tooDeep (hb : Bounded engine context rounds size partials)
    (hparents : ∀ {name : Text} {lines : List Text}, engine.loadLines name [] = .ok lines →
      name ∈ parents)
    (hcalm : ∀ {depth : Nat} {chain : Chain} {start : Session},
      Turn engine context depth name {} chain start → Calm engine context depth chain start) :
    ∃ depth, outcome (load engine context depth name) {} ≠ .error .tooDeep := by
  cases hl : engine.loadLines name [] with
  | error e =>
    obtain ⟨detail, rfl⟩ := Engine.exists_of_loadLines_error hl
    refine ⟨0, ?_⟩
    rw [outcome_load_eq, hl]
    simp [Except.bind]
  | ok lines =>
    have hloading := stands_loading (Session.stands_empty engine) (.inl rfl) lines
    have hmain : ∀ depth, Calm engine context depth [mainName] (Session.loading {} lines) :=
      fun depth => hcalm (.main hl)
    have hidle : (Session.loading {} lines).Grown := Session.grown_of_idle rfl
    obtain ⟨depth, hdepth⟩ := exists_outcome_walk_ne_tooDeep hb hmain hloading
      (walked_of_isMain (.inr rfl) _) hidle
    cases hw : outcome (walk engine context depth [mainName]) (Session.loading {} lines) with
    | error e =>
      refine ⟨depth, ?_⟩
      rw [outcome_load_eq, hl]
      simp only [Except.bind]
      rw [hw]
      rwa [hw] at hdepth
    | ok p =>
      obtain ⟨u, after⟩ := p
      have hafter : after.Stands engine [] [(mainName, .main)] 0 :=
        (keeps_walk hloading depth [mainName]).of_outcome_ok hw
      obtain ⟨tail, hm, hclean⟩ := stands_clean hafter
      have hgrown := grown_of_walk hb.keys_le (hmain depth) hidle hw
      have hturns : CalmParents engine context
          { after with layers := after.layers.clean mainName } := by
        intro depth' count chain start ht
        have hle : depth' ≤ max depth (max depth' count) := by omega
        have hdeep := (walk_under engine context (Nat.le_max_left depth (max depth' count))
          [mainName]).outcome_ok hw
        have hturn := ht.deeper hle (by omega : count ≤ max depth (max depth' count))
        exact (hcalm (.parent hl hdeep hturn)).shallower hle
      obtain ⟨depth', count, hne⟩ := exists_outcome_walkParents_ne_tooDeep hb hparents hturns hclean hm
        (hgrown.congr rfl) parents.card (by omega)
      refine ⟨max depth (max depth' count), ?_⟩
      have hdeep := (walk_under engine context (Nat.le_max_left depth (max depth' count))
        [mainName]).outcome_ok hw
      have hsame := (walkParents_under engine context
        (by omega : depth' ≤ max depth (max depth' count))
        (by omega : count ≤ max depth (max depth' count))).outcome_eq hne
      rw [outcome_load_eq, hl]
      simp only [Except.bind]
      rw [hdeep]
      show outcome (walkParents engine context (max depth (max depth' count))
        (max depth (max depth' count))) _ ≠ .error .tooDeep
      rwa [hsame]

end Render

namespace Engine

variable {engine : Engine} {name : Text} {context : Context}

/-- **A render ends** if all templates are in tables, unless it comes to a line that changes how loops
are nested. -/
theorem ends_or_restructures (h : engine.InMemory) (name : Text) (context : Context) :
    (∃ result, engine.Returns name context result) ∨
      ∃ line session, engine.Handles context name line session ∧
        session.Restructures context line := by
  by_cases hr : ∃ line session, engine.Handles context name line session ∧
      session.Restructures context line
  · exact .inr hr
  · left
    obtain ⟨rounds, size, partials, hb⟩ := exists_bounded h context
    obtain ⟨parents, hparents⟩ := exists_names h []
    obtain ⟨depth, hne⟩ := Render.exists_outcome_load_ne_tooDeep hb hparents
      (fun {depth chain start} ht line session hh hres =>
        hr ⟨line, session, ⟨depth, chain, start, ht, hh⟩, hres⟩)
    exact ⟨_, depth, rfl, fun hdeep => hne (renderWithin_eq_error_iff.1 hdeep)⟩

/-- The text of an element opens a loop, and the render does not end. -/
theorem splicing_restructures :
    (∀ depth, splicing.renderWithin depth "t".toList openers = .error .tooDeep) ∧
      ∃ line session, splicing.Handles openers "t".toList line session ∧
        session.Restructures openers line := by
  refine ⟨renders_without_end, ?_⟩
  have hmemory : splicing.InMemory := fun loader hl => nomatch hl
  rcases ends_or_restructures hmemory "t".toList openers with ⟨result, depth, hr, hne⟩ | hres
  · exact absurd (hr.symm.trans (renders_without_end depth)) hne
  · exact hres

end Engine

end Stencil
