import Stencil.Proofs.Expansion.Resolution

/-!
# Binding a variable

An iteration resolves paths instead of binding its variable. As long as the variable stands at most
at the beginning of a path, this comes to the same: the resolved path names in the context what the
path names in a context that has the element for the variable (`Iteration.Binds.get?_resolved`).
-/

namespace Stencil

/-- A letter or an underscore, and then letters, digits and underscores. -/
structure Text.IsIdentifier (v : Text) : Prop where
  isPath : LoopHeader.isPath v = true
  start : ∀ c ∈ v.head?, isPathStart c = true
  dotless : '.' ∉ v

instance (v : Text) : Decidable v.IsIdentifier :=
  -- not by going through all characters
  have : Decidable (∀ c ∈ v.head?, isPathStart c = true) := v.head?.decidableForallMem
  decidable_of_iff (_ ∧ _ ∧ _) ⟨fun ⟨a, b, c⟩ => ⟨a, b, c⟩, fun ⟨a, b, c⟩ => ⟨a, b, c⟩⟩

namespace Context

variable {context : Context} {v p : Text}

/-- The name stands in the path at most as its first segment, and not before a dot that ends the
path. -/
structure OnlyLeads (v p : Text) : Prop where
  not_later : v ∉ laterSegments p
  not_dotted : p ≠ v ++ ['.']

instance (v p : Text) : Decidable (OnlyLeads v p) :=
  decidable_of_iff (_ ∧ _) ⟨fun ⟨a, b⟩ => ⟨a, b⟩, fun ⟨a, b⟩ => ⟨a, b⟩⟩

theorem exists_segments (p : Text) :
    ∃ root rest, segments p = root :: rest ∧ laterSegments p = rest := by
  obtain ⟨root, rest, h⟩ := List.exists_cons_of_ne_nil (Text.splitOn_ne_nil '.' p)
  exact ⟨root, rest, h, by rw [laterSegments, show segments p = _ from h]; rfl⟩

theorem join_segments (p : Text) : Text.join ['.'] (segments p) = p := Text.join_splitOn p

theorem OnlyLeads.rest_ne {rest : List Text} (h : OnlyLeads v p) (hp : segments p = v :: rest) :
    rest ≠ [[]] := by
  rintro rfl
  refine h.not_dotted ?_
  rw [← join_segments p, hp]
  simp [Text.join]

/-- A path that an identifier leads begins as one. -/
theorem startsPath_of_leads {rest : List Text} (hv : v.IsIdentifier) (h : segments p = v :: rest) :
    startsPath p = true := by
  obtain ⟨c, cs, rfl⟩ := List.exists_cons_of_ne_nil (LoopHeader.isPath_iff.1 hv.isPath).1
  have hc : isPathStart c = true := hv.start c rfl
  rcases Text.eq_of_splitOn_cons (show Text.splitOn '.' p = _ from h) with ⟨-, rfl⟩ | ⟨-, rfl⟩ <;>
    exact hc

/-! ## What a path names -/

theorem get?_of_segments {root : Text} {rest : List Text} (h : segments p = root :: rest) :
    context.get? p = (Entries.get? root context.entries).bind (follow? · rest) := by
  rw [get?, h]

theorem follow?_append (value : Value) (s t : List Text) :
    follow? value (s ++ t) = (follow? value s).bind (follow? · t) := by
  induction s generalizing value with
  | nil => rfl
  | cons segment s ih =>
    rw [List.cons_append, follow?, follow?]
    cases value.step? segment with
    | none => rfl
    | some inner => exact ih inner

/-- What a path names is what its last segments lead to from what the others name. -/
theorem get?_append {q : Text} {rest : List Text} (h : segments p = segments q ++ rest) :
    context.get? p = (context.get? q).bind (follow? · rest) := by
  obtain ⟨root, mid, hq, -⟩ := exists_segments q
  rw [hq, List.cons_append] at h
  rw [get?_of_segments h, get?_of_segments hq]
  cases Entries.get? root context.entries with
  | none => rfl
  | some value => exact follow?_append value mid rest

/-- What a path names depends on its first segment only. -/
theorem get?_congr {other : Context} {root : Text} {rest : List Text}
    (hp : segments p = root :: rest)
    (h : Entries.get? root context.entries = Entries.get? root other.entries) :
    context.get? p = other.get? p := by
  rw [get?_of_segments hp, get?_of_segments hp, h]

/-- A path that a bound variable leads names what its other segments lead to from the value. -/
theorem get?_insert_of_leads (value : Value) {rest : List Text} (h : segments p = v :: rest) :
    (context.insert v value).get? p = follow? value rest := by
  rw [get?_of_segments h, insert, Entries.get?_insert_self, Option.bind_some]

/-! ## Scopes -/

/-- The context inside loops: a scope gives their variables with the elements they are bound to, the
innermost first. -/
def withScope (context : Context) (scope : List (Text × Value)) : Context :=
  scope.foldr (fun binding inner => inner.insert binding.1 binding.2) context

@[simp] theorem withScope_nil : context.withScope [] = context := rfl

@[simp] theorem withScope_cons (value : Value) (scope : List (Text × Value)) :
    context.withScope ((v, value) :: scope) = (context.withScope scope).insert v value := rfl

/-- **The innermost variable counts**: a path names what its other segments lead to from the element
that the first one is bound to in the scope. -/
theorem get?_withScope (scope : List (Text × Value)) {root : Text} {rest : List Text}
    (h : segments p = root :: rest) :
    (context.withScope scope).get? p =
      match scope.lookup root with
      | some x => follow? x rest
      | none => context.get? p := by
  induction scope with
  | nil => rfl
  | cons binding scope ih =>
    obtain ⟨name, value⟩ := binding
    rw [withScope_cons, List.lookup_cons]
    by_cases hroot : root = name
    · subst hroot
      rw [get?_insert_of_leads value h, beq_self_eq_true]
    · rw [beq_eq_false_iff_ne.2 hroot, ← ih]
      exact get?_congr h (Entries.get?_insert_of_ne hroot ..)

end Context

namespace Iteration

variable {it : Iteration} {context bound : Context} {p : Text}

/-! ## What an iteration makes of a path -/

theorem segments_element (hk : '.' ∉ it.key) :
    Context.segments it.element = Context.segments it.header.collection ++ [it.key] := by
  rw [Context.segments, element, Text.splitOn_append, Text.splitOn_of_not_mem hk]
  rfl

/-- A path that the variable leads becomes a path into the element. -/
theorem resolved_of_leads {rest : List Text}
    (hp : Context.segments p = it.header.variableName :: rest) (hne : rest ≠ [[]]) :
    it.resolved p = if rest = [] then it.element else it.element ++ '.' :: Text.join ['.'] rest := by
  have hempty : (Text.join ['.'] rest).isEmpty = decide (rest = []) := by
    cases rest with
    | nil => rfl
    | cons s rest =>
      cases rest with
      | nil =>
        have hs : s ≠ [] := fun e => hne (by rw [e])
        simp [Text.join, hs]
      | cons s' rest => simp [Text.join]
  unfold resolved resolve?
  simp only [show Text.splitOn '.' p = _ from hp, if_true, hempty, decide_eq_true_eq]
  rfl

/-- **The segments of a resolved path** are those of the element and those behind the variable. -/
theorem segments_resolved_of_leads {rest : List Text}
    (hp : Context.segments p = it.header.variableName :: rest) (hne : rest ≠ [[]]) :
    Context.segments (it.resolved p) = Context.segments it.element ++ rest := by
  rw [resolved_of_leads hp hne]
  split
  · next h => rw [h, List.append_nil]
  · next h =>
    have hdotless : ∀ w ∈ rest, '.' ∉ w := fun w hw =>
      Text.not_mem_of_mem_splitOn (t := p) (by
        rw [show Text.splitOn '.' p = _ from hp]
        exact List.mem_cons_of_mem _ hw)
    rw [Context.segments, Text.splitOn_append, Text.splitOn_join h hdotless]
    rfl

/-- A stretch that cannot begin a path does not begin with the variable either. -/
theorem stretched_eq_resolved (hv : it.header.variableName.IsIdentifier)
    (h : it.header.variableName ∉ Context.laterSegments p) : it.stretched p = it.resolved p := by
  unfold stretched
  split
  · rfl
  · next hs =>
    obtain ⟨root, rest, hsegments, hlater⟩ := Context.exists_segments p
    refine (resolved_eq_self fun hm => ?_).symm
    rw [hsegments] at hm
    rcases List.mem_cons.1 hm with rfl | hm
    · exact hs (Context.startsPath_of_leads hv hsegments)
    · exact h (by rw [hlater]; exact hm)

/-- A path that the variable does not lead stays. -/
theorem resolved_of_not_leads (h : Context.OnlyLeads it.header.variableName p)
    (hp : (Context.segments p).head? ≠ some it.header.variableName) : it.resolved p = p := by
  refine resolved_eq_self fun hm => ?_
  obtain ⟨root, rest, hs, hl⟩ := Context.exists_segments p
  rw [hs] at hm hp
  rcases List.mem_cons.1 hm with rfl | hm
  · exact hp rfl
  · exact h.not_later (by rw [hl]; exact hm)

/-! ## Contexts with the variable bound -/

/-- `bound` has the element of the iteration for the variable, and is `context` otherwise. -/
structure Binds (it : Iteration) (context bound : Context) : Prop where
  key_dotless : '.' ∉ it.key
  element : ∃ x, Entries.get? it.header.variableName bound.entries = some x ∧
    context.get? it.element = some x
  others : ∀ name, name ≠ it.header.variableName →
    Entries.get? name bound.entries = Entries.get? name context.entries

namespace Binds

/-- **A resolved path names** what the path names once the variable is bound. -/
theorem get?_resolved (h : it.Binds context bound)
    (hp : Context.OnlyLeads it.header.variableName p) :
    context.get? (it.resolved p) = bound.get? p := by
  obtain ⟨root, rest, hs, -⟩ := Context.exists_segments p
  by_cases hroot : root = it.header.variableName
  · subst hroot
    obtain ⟨x, hbound, hcontext⟩ := h.element
    rw [Context.get?_append (segments_resolved_of_leads hs (hp.rest_ne hs)),
      Context.get?_of_segments hs, hbound, hcontext]
  · rw [resolved_of_not_leads hp (by rw [hs]; simpa using hroot)]
    exact Context.get?_congr hs (h.others root hroot).symm

theorem of_insert {value : Value} (hk : '.' ∉ it.key)
    (h : context.get? it.element = some value) :
    it.Binds context (context.insert it.header.variableName value) where
  key_dotless := hk
  element := ⟨value, Entries.get?_insert_self .., h⟩
  others _ hne := Entries.get?_insert_of_ne hne ..

/-- Binding another variable in both contexts leaves the iteration its own, unless the collection
begins with the other one. -/
theorem insert (h : it.Binds context bound) {name : Text} (hne : name ≠ it.header.variableName)
    (hc : name ∉ Context.segments it.header.collection) (value : Value) :
    it.Binds (context.insert name value) (bound.insert name value) where
  key_dotless := h.key_dotless
  element := by
    obtain ⟨root, rest, hs, -⟩ := Context.exists_segments it.header.collection
    have hs' : Context.segments it.element = root :: (rest ++ [it.key]) := by
      rw [segments_element h.key_dotless, hs, List.cons_append]
    have hroot : root ≠ name := by
      rintro rfl
      exact hc (by rw [hs]; exact List.mem_cons_self)
    obtain ⟨x, hbound, hcontext⟩ := h.element
    refine ⟨x, (Entries.get?_insert_of_ne (Ne.symm hne) ..).trans hbound, ?_⟩
    exact (Context.get?_congr hs' (Entries.get?_insert_of_ne hroot ..)).trans hcontext
  others other hother := by
    by_cases hname : other = name
    · subst hname
      exact (Entries.get?_insert_self ..).trans (Entries.get?_insert_self ..).symm
    · exact (Entries.get?_insert_of_ne hname ..).trans
        ((h.others other hother).trans (Entries.get?_insert_of_ne hname ..).symm)

end Binds

end Iteration

end Stencil
