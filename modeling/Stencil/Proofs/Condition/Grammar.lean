import Stencil.Condition.Expression

/-!
# The grammar of conditions

The grammar as a relation between expressions and lists of tokens, a rule for each production, and
the parser measured against it: a whole list of tokens is read as an expression exactly when the
grammar derives the list from that expression.

The parser returns a subtype, so that it ends. What it takes from a list of tokens is put into a
relation first, one equivalence for each of its functions; the two directions are proved from these
alone.
-/

namespace Stencil.Condition

/-- The classes of expressions, tightest binding first. -/
inductive Level where
  /-- A value, a path, or an expression between parentheses. -/
  | operand
  /-- An operand, or two that are compared. -/
  | comparison
  /-- A comparison behind any number of negations. -/
  | negation
  /-- Negations with conjunctions between them. -/
  | conjunction
  /-- Conjunctions with disjunctions between them. -/
  | disjunction

/-- The grammar: which lists of tokens spell an expression of a level. Conjunctions and disjunctions
group to the left. -/
inductive Spells : Level → Expression → List Token → Prop
  | literal (v : Value) : Spells .operand (.literal v) [.literal v]
  | identifier (path : Text) : Spells .operand (.identifier path) [.identifier path]
  | group {e : Expression} {ts : List Token} (inner : Spells .disjunction e ts) :
    Spells .operand (.group e) (.opening :: (ts ++ [.closing]))
  | single {e : Expression} {ts : List Token} (h : Spells .operand e ts) : Spells .comparison e ts
  | compare (c : Comparison) {a b : Expression} {us vs : List Token}
    (left : Spells .operand a us) (right : Spells .operand b vs) :
    Spells .comparison (.compare c a b) (us ++ .op (.compare c) :: vs)
  | plain {e : Expression} {ts : List Token} (h : Spells .comparison e ts) : Spells .negation e ts
  | not {e : Expression} {ts : List Token} (h : Spells .negation e ts) :
    Spells .negation (.not e) (.op .not :: ts)
  | conjunct {e : Expression} {ts : List Token} (h : Spells .negation e ts) :
    Spells .conjunction e ts
  | and {a b : Expression} {us vs : List Token}
    (left : Spells .conjunction a us) (right : Spells .negation b vs) :
    Spells .conjunction (.and a b) (us ++ .op .and :: vs)
  | disjunct {e : Expression} {ts : List Token} (h : Spells .conjunction e ts) :
    Spells .disjunction e ts
  | or {a b : Expression} {us vs : List Token}
    (left : Spells .disjunction a us) (right : Spells .conjunction b vs) :
    Spells .disjunction (.or a b) (us ++ .op .or :: vs)

/-! ## What the parser takes -/

section Takes

variable {p : List Token → Prop} {e left : Expression} {ts rest : List Token}

/-- The result is an expression and the tokens that are left. -/
def Takes (result : Except Error (Expression × { rest : List Token // p rest }))
    (e : Expression) (rest : List Token) : Prop :=
  ∃ h, result = .ok (e, ⟨rest, h⟩)

@[simp] theorem takes_ok {x : Expression} {r : { rest : List Token // p rest }} :
    Takes (.ok (x, r)) e rest ↔ x = e ∧ r.val = rest := by
  obtain ⟨us, h⟩ := r
  constructor
  · rintro ⟨_, heq⟩
    cases heq
    exact ⟨rfl, rfl⟩
  · rintro ⟨rfl, rfl⟩
    exact ⟨h, rfl⟩

@[simp] theorem not_takes_error {err : Error} :
    ¬ Takes (.error err : Except Error (Expression × { rest : List Token // p rest })) e rest := by
  rintro ⟨_, heq⟩
  cases heq

theorem takes_operand : Takes (operand ts) e rest ↔
    (∃ v, ts = .literal v :: rest ∧ e = .literal v) ∨
    (∃ path, ts = .identifier path :: rest ∧ e = .identifier path) ∨
    ∃ us inner, ts = .opening :: us ∧ Takes (disjunction us) inner (.closing :: rest) ∧
      e = .group inner := by
  rw [operand.eq_def]
  split
  · simp
  · simp [and_assoc]; grind
  · simp [and_assoc]; grind
  · split <;> next h => simp [h, and_assoc] <;> grind
  · simp [and_assoc]; grind

theorem takes_comparison : Takes (comparison ts) e rest ↔
    (∃ c a b us, Takes (operand ts) a (.op (.compare c) :: us) ∧ Takes (operand us) b rest ∧
      e = .compare c a b) ∨
    Takes (operand ts) e rest ∧ ∀ c us, rest ≠ .op (.compare c) :: us := by
  rw [comparison.eq_def]
  split
  · next h => simp [h]
  · next h =>
    split <;> next h' => simp [h, h', and_assoc]; grind
  · next r hr h =>
    have hne : ∀ c us, r.val ≠ .op (.compare c) :: us := fun c us hval =>
      hr c us (hval ▸ r.2) (Subtype.ext hval)
    simp [h, and_assoc]; grind

theorem takes_negation : Takes (negation ts) e rest ↔
    (∃ us inner, ts = .op .not :: us ∧ Takes (negation us) inner rest ∧ e = .not inner) ∨
    Takes (comparison ts) e rest := by
  rw [negation.eq_def]
  split
  · next us =>
    have hnot : ¬ Takes (comparison (.op .not :: us)) e rest := by
      simp [takes_comparison, takes_operand]
    split <;> next h => simp [h, hnot, and_assoc] <;> grind
  · simp; grind

theorem takes_andMore : Takes (andMore left ts) e rest ↔
    (∃ us right mid, ts = .op .and :: us ∧ Takes (negation us) right mid ∧
      Takes (andMore (.and left right) mid) e rest) ∨
    e = left ∧ rest = ts ∧ ∀ us, ts ≠ .op .and :: us := by
  rw [andMore.eq_def]
  split
  · split
    · next h => simp [h]
    · next h =>
      split <;> next h' => simp [h, h', and_assoc]
  · simp; grind

theorem takes_conjunction : Takes (conjunction ts) e rest ↔
    ∃ left mid, Takes (negation ts) left mid ∧ Takes (andMore left mid) e rest := by
  rw [conjunction.eq_def]
  split
  · next h => simp [h]
  · next h =>
    split <;> next h' => simp [h, h', and_assoc]

theorem takes_orMore : Takes (orMore left ts) e rest ↔
    (∃ us right mid, ts = .op .or :: us ∧ Takes (conjunction us) right mid ∧
      Takes (orMore (.or left right) mid) e rest) ∨
    e = left ∧ rest = ts ∧ ∀ us, ts ≠ .op .or :: us := by
  rw [orMore.eq_def]
  split
  · split
    · next h => simp [h]
    · next h =>
      split <;> next h' => simp [h, h', and_assoc]
  · simp; grind

theorem takes_disjunction : Takes (disjunction ts) e rest ↔
    ∃ left mid, Takes (conjunction ts) left mid ∧ Takes (orMore left mid) e rest := by
  rw [disjunction.eq_def]
  split
  · next h => simp [h]
  · next h =>
    split <;> next h' => simp [h, h', and_assoc]

theorem Takes.length_lt {result : Parsed ts} (h : Takes result e rest) :
    rest.length < ts.length := h.1

end Takes

/-! ## What is taken follows the grammar -/

mutual

theorem spells_of_operand {ts rest : List Token} {e : Expression} (h : Takes (operand ts) e rest) :
    ∃ us, ts = us ++ rest ∧ Spells .operand e us := by
  obtain ⟨v, rfl, rfl⟩ | ⟨path, rfl, rfl⟩ | ⟨vs, inner, rfl, hinner, rfl⟩ := takes_operand.1 h
  · exact ⟨_, rfl, .literal v⟩
  · exact ⟨_, rfl, .identifier path⟩
  · obtain ⟨us, rfl, hus⟩ := spells_of_disjunction hinner
    exact ⟨_, by simp, .group hus⟩
termination_by 5 * ts.length

theorem spells_of_comparison {ts rest : List Token} {e : Expression}
    (h : Takes (comparison ts) e rest) : ∃ us, ts = us ++ rest ∧ Spells .comparison e us := by
  obtain ⟨c, a, b, mid, ha, hb, rfl⟩ | ⟨he, -⟩ := takes_comparison.1 h
  · have := ha.length_lt
    obtain ⟨us, rfl, hus⟩ := spells_of_operand ha
    obtain ⟨vs, rfl, hvs⟩ := spells_of_operand hb
    exact ⟨_, by simp, .compare c hus hvs⟩
  · obtain ⟨us, rfl, hus⟩ := spells_of_operand he
    exact ⟨us, rfl, .single hus⟩
termination_by 5 * ts.length + 1
decreasing_by all_goals grind

theorem spells_of_negation {ts rest : List Token} {e : Expression}
    (h : Takes (negation ts) e rest) : ∃ us, ts = us ++ rest ∧ Spells .negation e us := by
  obtain ⟨mid, inner, rfl, hinner, rfl⟩ | he := takes_negation.1 h
  · obtain ⟨us, rfl, hus⟩ := spells_of_negation hinner
    exact ⟨_, by simp, .not hus⟩
  · obtain ⟨us, rfl, hus⟩ := spells_of_comparison he
    exact ⟨us, rfl, .plain hus⟩
termination_by 5 * ts.length + 2

/-- What has been read already stands before the tokens that `andMore` is given. -/
theorem spells_of_andMore {ts rest us : List Token} {left e : Expression}
    (h : Takes (andMore left ts) e rest) (hleft : Spells .conjunction left us) :
    ∃ vs, us ++ ts = vs ++ rest ∧ Spells .conjunction e vs := by
  obtain ⟨ts', right, mid, rfl, hright, hmore⟩ | ⟨rfl, rfl, -⟩ := takes_andMore.1 h
  · have := hright.length_lt
    obtain ⟨ws, rfl, hws⟩ := spells_of_negation hright
    obtain ⟨vs, heq, hvs⟩ := spells_of_andMore hmore (.and hleft hws)
    exact ⟨vs, by simpa using heq, hvs⟩
  · exact ⟨us, rfl, hleft⟩
termination_by 5 * ts.length
decreasing_by all_goals grind

theorem spells_of_conjunction {ts rest : List Token} {e : Expression}
    (h : Takes (conjunction ts) e rest) : ∃ us, ts = us ++ rest ∧ Spells .conjunction e us := by
  obtain ⟨left, mid, hleft, hmore⟩ := takes_conjunction.1 h
  have := hleft.length_lt
  obtain ⟨us, rfl, hus⟩ := spells_of_negation hleft
  exact spells_of_andMore hmore (.conjunct hus)
termination_by 5 * ts.length + 3
decreasing_by all_goals grind

/-- What has been read already stands before the tokens that `orMore` is given. -/
theorem spells_of_orMore {ts rest us : List Token} {left e : Expression}
    (h : Takes (orMore left ts) e rest) (hleft : Spells .disjunction left us) :
    ∃ vs, us ++ ts = vs ++ rest ∧ Spells .disjunction e vs := by
  obtain ⟨ts', right, mid, rfl, hright, hmore⟩ | ⟨rfl, rfl, -⟩ := takes_orMore.1 h
  · have := hright.length_lt
    obtain ⟨ws, rfl, hws⟩ := spells_of_conjunction hright
    obtain ⟨vs, heq, hvs⟩ := spells_of_orMore hmore (.or hleft hws)
    exact ⟨vs, by simpa using heq, hvs⟩
  · exact ⟨us, rfl, hleft⟩
termination_by 5 * ts.length
decreasing_by all_goals grind

theorem spells_of_disjunction {ts rest : List Token} {e : Expression}
    (h : Takes (disjunction ts) e rest) : ∃ us, ts = us ++ rest ∧ Spells .disjunction e us := by
  obtain ⟨left, mid, hleft, hmore⟩ := takes_disjunction.1 h
  have := hleft.length_lt
  obtain ⟨us, rfl, hus⟩ := spells_of_conjunction hleft
  exact spells_of_orMore hmore (.disjunct hus)
termination_by 5 * ts.length + 4
decreasing_by all_goals grind

end

/-! ## What follows the grammar is taken -/

/-- The operators that carry an expression of a level on when they come after it. -/
def Level.Joins : Level → Operator → Prop
  | .operand, _ => False
  | .comparison, o | .negation, o => ∃ c, o = .compare c
  | .conjunction, o => (∃ c, o = .compare c) ∨ o = .and
  | .disjunction, o => (∃ c, o = .compare c) ∨ o = .and ∨ o = .or

/-- An expression of the level ends before these tokens. -/
def Level.EndsBefore (l : Level) (rest : List Token) : Prop :=
  ∀ o us, rest = .op o :: us → ¬ l.Joins o

/-- The parser takes an expression of the level from in front of any tokens before which it ends.
A conjunction is not over with its last conjunct, for `andMore` sees to that; the same goes for a
disjunction. -/
def Reads : Level → Expression → List Token → Prop
  | .operand, e, us => ∀ rest, Takes (operand (us ++ rest)) e rest
  | .comparison, e, us =>
    ∀ rest, Level.comparison.EndsBefore rest → Takes (comparison (us ++ rest)) e rest
  | .negation, e, us =>
    ∀ rest, Level.negation.EndsBefore rest → Takes (negation (us ++ rest)) e rest
  | .conjunction, e, us =>
    ∀ rest, Level.negation.EndsBefore rest → ∀ e' rest', Takes (andMore e rest) e' rest' →
      Takes (conjunction (us ++ rest)) e' rest'
  | .disjunction, e, us =>
    ∀ rest, Level.conjunction.EndsBefore rest → ∀ e' rest', Takes (orMore e rest) e' rest' →
      Takes (disjunction (us ++ rest)) e' rest'

/-- Nothing follows the last conjunct. -/
theorem takes_andMore_self {left : Expression} {rest : List Token}
    (h : Level.conjunction.EndsBefore rest) : Takes (andMore left rest) left rest :=
  takes_andMore.2 (.inr ⟨rfl, rfl, fun us heq => h _ us heq (.inr rfl)⟩)

/-- Nothing follows the last disjunct. -/
theorem takes_orMore_self {left : Expression} {rest : List Token}
    (h : Level.disjunction.EndsBefore rest) : Takes (orMore left rest) left rest :=
  takes_orMore.2 (.inr ⟨rfl, rfl, fun us heq => h _ us heq (.inr (.inr rfl))⟩)

theorem Reads.disjunction {e : Expression} {us rest : List Token}
    (h : Reads .disjunction e us) (hrest : Level.disjunction.EndsBefore rest) :
    Takes (Condition.disjunction (us ++ rest)) e rest :=
  h rest (fun o us heq hj => hrest o us heq (by
    rcases hj with hc | rfl
    · exact .inl hc
    · exact .inr (.inl rfl))) e rest (takes_orMore_self hrest)

theorem Reads.conjunction {e : Expression} {us rest : List Token}
    (h : Reads .conjunction e us) (hrest : Level.conjunction.EndsBefore rest) :
    Takes (Condition.conjunction (us ++ rest)) e rest :=
  h rest (fun o us heq hj => hrest o us heq (.inl hj)) e rest (takes_andMore_self hrest)

theorem reads_of_spells {l : Level} {e : Expression} {us : List Token} (h : Spells l e us) :
    Reads l e us := by
  induction h with
  | literal v => exact fun rest => takes_operand.2 (.inl ⟨v, rfl, rfl⟩)
  | identifier path => exact fun rest => takes_operand.2 (.inr (.inl ⟨path, rfl, rfl⟩))
  | @group e ts _ ih =>
    intro rest
    have hclosing : Level.disjunction.EndsBefore (.closing :: rest) := by
      rintro o us ⟨⟩
    refine takes_operand.2 (.inr (.inr ⟨ts ++ .closing :: rest, e, by simp, ?_, rfl⟩))
    exact ih.disjunction hclosing
  | single _ ih =>
    intro rest hrest
    exact takes_comparison.2 (.inr ⟨ih rest, fun c us heq => hrest _ us heq ⟨c, rfl⟩⟩)
  | @compare c a b us vs _ _ iha ihb =>
    intro rest _
    refine takes_comparison.2 (.inl ⟨c, a, b, vs ++ rest, ?_, ihb rest, rfl⟩)
    rw [List.append_assoc, List.cons_append]
    exact iha _
  | plain _ ih => exact fun rest hrest => takes_negation.2 (.inr (ih rest hrest))
  | not _ ih => exact fun rest hrest => takes_negation.2 (.inl ⟨_, _, rfl, ih rest hrest, rfl⟩)
  | conjunct _ ih =>
    intro rest hrest e' rest' hmore
    exact takes_conjunction.2 ⟨_, rest, ih rest hrest, hmore⟩
  | @and a b us vs _ _ iha ihb =>
    intro rest hrest e' rest' hmore
    have hand : Level.negation.EndsBefore (.op .and :: (vs ++ rest)) := by
      rintro o ws heq ⟨c, rfl⟩
      cases heq
    have hmore' : Takes (andMore a (.op .and :: (vs ++ rest))) e' rest' :=
      takes_andMore.2 (.inl ⟨_, b, rest, rfl, ihb rest hrest, hmore⟩)
    rw [List.append_assoc, List.cons_append]
    exact iha _ hand e' rest' hmore'
  | disjunct _ ih =>
    intro rest hrest e' rest' hmore
    exact takes_disjunction.2 ⟨_, rest, ih.conjunction hrest, hmore⟩
  | @or a b us vs _ _ iha ihb =>
    intro rest hrest e' rest' hmore
    have hor : Level.conjunction.EndsBefore (.op .or :: (vs ++ rest)) := by
      rintro o ws heq (⟨c, rfl⟩ | rfl) <;> cases heq
    have hmore' : Takes (orMore a (.op .or :: (vs ++ rest))) e' rest' :=
      takes_orMore.2 (.inl ⟨_, b, rest, rfl, ihb.conjunction hrest, hmore⟩)
    rw [List.append_assoc, List.cons_append]
    exact iha _ hor e' rest' hmore'

/-! ## The parser decides the grammar -/

theorem ofTokens_eq_ok_iff_takes {ts : List Token} {e : Expression} :
    Expression.ofTokens ts = .ok e ↔ Takes (disjunction ts) e [] := by
  unfold Expression.ofTokens
  split <;> next h => simp [h]

/-- A list of tokens is read as an expression exactly when the grammar derives it from that
expression. -/
theorem ofTokens_eq_ok_iff {ts : List Token} {e : Expression} :
    Expression.ofTokens ts = .ok e ↔ Spells .disjunction e ts := by
  rw [ofTokens_eq_ok_iff_takes]
  constructor
  · intro h
    obtain ⟨us, rfl, hus⟩ := spells_of_disjunction h
    simpa using hus
  · intro h
    have hnil : Level.disjunction.EndsBefore [] := by
      rintro o us ⟨⟩
    have := (reads_of_spells h).disjunction hnil
    rwa [List.append_nil] at this

/-- A list of tokens spells one expression at most. -/
theorem Spells.unique {ts : List Token} {a b : Expression} (ha : Spells .disjunction a ts)
    (hb : Spells .disjunction b ts) : a = b :=
  Except.ok.inj ((ofTokens_eq_ok_iff.2 ha).symm.trans (ofTokens_eq_ok_iff.2 hb))

theorem parse_eq_ok_iff {condition : Text} {e : Expression} :
    parse condition = .ok e ↔ ∃ ts, tokens condition = .ok ts ∧ Spells .disjunction e ts := by
  unfold parse
  cases h : tokens condition with
  | error err => simp [bind, Except.bind]
  | ok ts => simp [bind, Except.bind, ofTokens_eq_ok_iff]

end Stencil.Condition
