import Mathlib.Logic.Relation
import Stencil.Proofs.Inheritance.Growth

/-!
# Cycles of inheritance

A render fails with a cycle of inheritance when it takes in a parent for the second time
(`returns_inheritanceCycle_iff`), be it from a template that the parent leads to or not. As long as
no template extends more than one parent, the first is the only way: the templates that were
extended are then a chain of parents up to the one whose turn it is.
-/

namespace Stencil

/-- If no parent is taken in after another one, there is one at most. -/
theorem Session.Grows.once {E : Session → Text → Prop} {session after : Session}
    (h : session.Grows E after)
    (hE : ∀ s parent s' parent', E s parent → E s' parent' → s.extended = s'.extended) :
    (after.extended = session.extended ∧ after.pending = session.pending) ∨
      ∃ s parent, E s parent ∧ s.extended = session.extended ∧
        after.extended = parent :: session.extended ∧
        after.pending = session.pending ++ [parentLayer parent] := by
  induction h with
  | same he hp => exact .inl ⟨he, hp⟩
  | @take between after parent _ htake hx he hp ih =>
    right
    rcases ih with ⟨he', hp'⟩ | ⟨s, first, hfirst, hs, he', -⟩
    · exact ⟨between, parent, htake, he', by rw [he, he'], by rw [hp, hp']⟩
    · -- the parent before this one would have been taken in with fewer templates extended
      have hsame := hE _ _ _ _ hfirst htake
      rw [hs, he'] at hsame
      exact absurd (congrArg List.length hsame) (by simp)

namespace Engine

variable {engine : Engine} {context : Context} {name : Text}

/-- A render takes in the parent, and does so in the session. -/
def TakesIn (engine : Engine) (context : Context) (name : Text) (session : Session)
    (parent : Text) : Prop :=
  ∃ depth chain start, Render.Turn engine context depth name {} chain start ∧
    Render.Takes engine context depth chain start session parent

/-- In its turn, the parent `child` takes in the parent `parent`, by a tag of its own or of a
template that it includes. -/
def Extends (engine : Engine) (context : Context) (name child parent : Text) : Prop :=
  ∃ depth outer start session,
    Render.Turn engine context depth name {} (parentLayer child :: outer) start ∧
    Render.Takes engine context depth (parentLayer child :: outer) start session parent

/-- Some template takes in a parent in its turn, and then another one. -/
def Branches (engine : Engine) (context : Context) (name : Text) : Prop :=
  ∃ depth chain start session parent session' parent',
    Render.Turn engine context depth name {} chain start ∧
    Render.Takes engine context depth chain start session parent ∧
    Render.Takes engine context depth chain start session' parent' ∧
    session.extended ≠ session'.extended

/-! ## One turn after the other -/

/-- What holds when a turn begins, by `opened`, is carried from one turn to the next by what holds
between turns, `closed`. -/
theorem turn_induction {depth : Nat} (opened : Chain → Session → Prop) (closed : Session → Prop)
    (main : ∀ lines, opened [mainName] (Session.loading {} lines))
    (ends : ∀ chain start after, Render.Turn engine context depth name {} chain start →
      opened chain start → start.Grows (Render.Takes engine context depth chain start) after →
      closed after)
    (clean : ∀ session layers, closed session → closed { session with layers })
    (next : ∀ session layer rest, closed session → session.pending = layer :: rest →
      opened (layer :: session.active) { session with pending := rest })
    {chain : Chain} {start : Session}
    (h : Render.Turn engine context depth name {} chain start) : opened chain start := by
  have hparents : ∀ count session,
      (∀ chain start, Render.ParentTurn engine context depth count session chain start →
        Render.Turn engine context depth name {} chain start) →
      closed session →
      ∀ chain start, Render.ParentTurn engine context depth count session chain start →
        opened chain start := by
    intro count session hturn hclosed chain start ht
    induction ht with
    | first hp => exact next _ _ _ hclosed hp
    | later hp hw _ ih =>
      refine ih (fun chain start ht => hturn chain start (.later hp hw ht)) ?_
      exact ends _ _ _ (hturn _ _ (.first hp)) (next _ _ _ hclosed hp)
        (Render.grows_walk engine context depth hw)
  cases h with
  | main hl => exact main _
  | parent hl hw ht =>
    have hmain := ends _ _ _ (.main hl) (main _) (Render.grows_walk engine context depth hw)
    exact hparents _ _ (fun chain start ht => .parent hl hw ht) (clean _ _ hmain) _ _ ht

/-- The template was taken in when it was new. -/
def Introduces (engine : Engine) (context : Context) (name parent : Text) : Prop :=
  ∃ session, engine.TakesIn context name session parent ∧ parent ∉ session.extended

theorem introduces_of_grows {E : Session → Text → Prop} {session after : Session}
    (h : session.Grows E after) (hE : ∀ s parent, E s parent → engine.TakesIn context name s parent)
    (hsession : ∀ parent ∈ session.extended, engine.Introduces context name parent) :
    ∀ parent ∈ after.extended, engine.Introduces context name parent := by
  induction h with
  | same he _ =>
    rw [he]
    exact hsession
  | take _ htake hx he _ ih =>
    rw [he]
    intro parent hmem
    rcases List.mem_cons.1 hmem with rfl | hmem
    · exact ⟨_, hE _ _ htake, hx⟩
    · exact ih parent hmem

/-- Every template that was extended was taken in when it was new. -/
theorem introduces_of_turn {depth : Nat} {chain : Chain} {start : Session}
    (h : Render.Turn engine context depth name {} chain start) :
    ∀ parent ∈ start.extended, engine.Introduces context name parent :=
  turn_induction (fun _ start => ∀ parent ∈ start.extended, engine.Introduces context name parent)
    (fun session => ∀ parent ∈ session.extended, engine.Introduces context name parent)
    (fun _ _ hmem => absurd hmem (by simp [Session.loading]))
    (fun _ _ _ hturn hstart hgrows =>
      introduces_of_grows hgrows (fun _ _ ht => ⟨_, _, _, hturn, ht⟩) hstart)
    (fun _ _ h => h) (fun _ _ _ h _ => h) h

/-! ## Chains of parents -/

/-- The templates that were extended lead to the last one of them. -/
def Leads (engine : Engine) (context : Context) (name : Text) : List Text → Prop
  | [] => True
  | last :: rest => ∀ parent ∈ rest, Relation.TransGen (engine.Extends context name) parent last

theorem Leads.cons {extended : List Text} {parent : Text}
    (h : engine.Leads context name extended)
    (hlast : ∀ child ∈ extended.head?, engine.Extends context name child parent) :
    engine.Leads context name (parent :: extended) := by
  cases extended with
  | nil => exact fun _ hmem => absurd hmem List.not_mem_nil
  | cons last rest =>
    have hstep := hlast last rfl
    intro child hmem
    rcases List.mem_cons.1 hmem with rfl | hmem
    · exact .single hstep
    · exact (h child hmem).tail hstep

/-- The turn is that of the template that was extended last, or no template was extended yet, and no
other parent waits. -/
structure Single (engine : Engine) (context : Context) (name : Text) (chain : Chain)
    (start : Session) : Prop where
  pending : start.pending = []
  leads : engine.Leads context name start.extended
  turn : ∀ last ∈ start.extended.head?, ∃ outer, chain = parentLayer last :: outer

theorem single_of_turn (hb : ¬ engine.Branches context name) {depth : Nat} {chain : Chain}
    {start : Session} (h : Render.Turn engine context depth name {} chain start) :
    engine.Single context name chain start := by
  refine turn_induction (engine.Single context name) (fun session =>
    engine.Leads context name session.extended ∧ (session.pending = [] ∨
      ∃ last rest, session.extended = last :: rest ∧ session.pending = [parentLayer last]))
    ?main ?ends (fun _ _ h => h) ?next h
  case main =>
    exact fun lines => ⟨rfl, trivial, fun last hlast => absurd hlast (by simp [Session.loading])⟩
  case ends =>
    intro chain start after hturn hsingle hgrows
    obtain ⟨hpending, hleads, hlayer⟩ := hsingle
    rcases hgrows.once (fun s parent s' parent' ht ht' => not_not.1 fun hne =>
      hb ⟨_, _, _, _, _, _, _, hturn, ht, ht', hne⟩) with ⟨he, hp⟩ | ⟨s, parent, ht, -, he, hp⟩
    · exact ⟨he ▸ hleads, .inl (hp.trans hpending)⟩
    · refine ⟨?_, .inr ⟨parent, start.extended, he, by rw [hp, hpending, List.nil_append]⟩⟩
      rw [he]
      refine hleads.cons fun child hchild => ?_
      obtain ⟨outer, rfl⟩ := hlayer child hchild
      exact ⟨_, outer, start, s, hturn, ht⟩
  case next =>
    rintro session layer rest ⟨hleads, hnil | ⟨last, others, he, hp⟩⟩ hpending
    · rw [hnil] at hpending
      cases hpending
    · rw [hp] at hpending
      obtain ⟨rfl, rfl⟩ := List.cons.inj hpending
      refine ⟨rfl, hleads, fun child hchild => ⟨session.active, ?_⟩⟩
      simp only [he, List.head?_cons, Option.mem_some_iff] at hchild
      rw [hchild]

/-! ## Cycles -/

/-- A render fails with a cycle if and only if it takes in the parent when it was extended
already. -/
theorem returns_inheritanceCycle_iff {parent : Text} :
    engine.Returns name context (.error (.inheritanceCycle parent)) ↔
      ∃ session, engine.TakesIn context name session parent ∧ parent ∈ session.extended := by
  rw [returns_error_iff]
  constructor
  · intro h
    cases h with
    | @cycle line session _ hh ht hx =>
      obtain ⟨depth, chain, start, hturn, hh⟩ := hh
      exact ⟨session, ⟨depth, chain, start, hturn, line, hh, ht⟩, hx⟩
  · rintro ⟨session, ⟨depth, chain, start, hturn, line, hh, ht⟩, hx⟩
    exact .cycle ⟨depth, chain, start, hturn, hh⟩ ht hx

/-- What was extended when a parent is taken in was taken in before. -/
theorem TakesIn.introduces {session : Session} {parent : Text}
    (h : engine.TakesIn context name session parent) :
    ∀ template ∈ session.extended, engine.Introduces context name template := by
  obtain ⟨depth, chain, start, hturn, line, hh, -⟩ := h
  exact introduces_of_grows (Render.grows_of_handles hh) (fun _ _ ht => ⟨_, _, _, hturn, ht⟩)
    (introduces_of_turn hturn)

/-- **A cycle of inheritance** is raised exactly when a parent is taken in that was taken in before.
If no template extends more than one parent in its turn, the parent then leads to itself. -/
theorem inheritanceCycle_spec (engine : Engine) (context : Context) (name parent : Text) :
    (engine.Returns name context (.error (.inheritanceCycle parent)) ↔
      ∃ session session',
        engine.TakesIn context name session parent ∧ parent ∉ session.extended ∧
        engine.TakesIn context name session' parent ∧ parent ∈ session'.extended) ∧
    (engine.Returns name context (.error (.inheritanceCycle parent)) →
      Relation.TransGen (engine.Extends context name) parent parent ∨
        engine.Branches context name) := by
  rw [returns_inheritanceCycle_iff]
  refine ⟨⟨?_, ?_⟩, ?_⟩
  · rintro ⟨session, ht, hx⟩
    obtain ⟨first, hfirst, hnew⟩ := ht.introduces parent hx
    exact ⟨first, session, hfirst, hnew, ht, hx⟩
  · rintro ⟨-, session, -, -, ht, hx⟩
    exact ⟨session, ht, hx⟩
  · rintro ⟨session, ⟨depth, chain, start, hturn, htake⟩, hx⟩
    by_cases hb : engine.Branches context name
    · exact .inr hb
    left
    obtain ⟨-, hleads, hlayer⟩ := single_of_turn hb hturn
    obtain ⟨line, hh, -⟩ := id htake
    have hsame : ∀ s p s' p', Render.Takes engine context depth chain start s p →
        Render.Takes engine context depth chain start s' p' → s.extended = s'.extended :=
      fun s p s' p' ht ht' => not_not.1 fun hne => hb ⟨_, _, _, _, _, _, _, hturn, ht, ht', hne⟩
    -- nothing was taken in before in this turn, for this would be the second parent
    have hextended : session.extended = start.extended := by
      rcases (Render.grows_of_handles hh).once hsame with ⟨he, -⟩ | ⟨s, first, hfirst, hs, -, -⟩
      · exact he
      · rw [← hs, hsame _ _ _ _ htake hfirst]
    rw [hextended] at hx
    cases he : start.extended with
    | nil => simp [he] at hx
    | cons last rest =>
      obtain ⟨outer, rfl⟩ := hlayer last (by simp [he])
      have hstep : engine.Extends context name last parent :=
        ⟨depth, outer, start, session, hturn, htake⟩
      rw [he] at hx hleads
      rcases List.mem_cons.1 hx with rfl | hx
      · exact .single hstep
      · exact (hleads parent hx).tail hstep

/-- A template that includes a partial template twice, whose parent has no parent. -/
def repeated : Engine where
  templates := [
    ("base".toList, []),
    ("includes/w".toList, "\x7b% extends \"base\" %\x7dhi".toList),
    ("t".toList, "\x7b% include \"w\" %\x7d\x7b% include \"w\" %\x7d".toList)]

/-- Every inclusion takes in the parent of the partial template, which is no cycle. -/
theorem inheritanceCycle_spec_repeated :
    (∃ session session',
      repeated.TakesIn {} "t".toList session "base".toList ∧ "base".toList ∉ session.extended ∧
      repeated.TakesIn {} "t".toList session' "base".toList ∧ "base".toList ∈ session'.extended) ∧
    (Relation.TransGen (repeated.Extends {} "t".toList) "base".toList "base".toList ∨
      repeated.Branches {} "t".toList) := by
  have hreturns : repeated.Returns "t".toList {} (.error (.inheritanceCycle "base".toList)) :=
    ⟨4, by decide +kernel, by simp⟩
  obtain ⟨hiff, hleads⟩ := inheritanceCycle_spec repeated {} "t".toList "base".toList
  exact ⟨hiff.1 hreturns, hleads hreturns⟩

end Engine

end Stencil
