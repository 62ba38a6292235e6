import Stencil.Proofs.Scope.Element
import Stencil.Proofs.Scope.Header

/-!
# Nests of loops

A nest of loops is a tree whose lines are text with references, and whose spans are loops.
`Nesting.renderBound` says what it renders to by lexical scoping: the variable of a loop is bound to
the current element in the body, and nothing else. An iteration that resolves the variable of the
outermost loop comes to the same as binding it (`renderBound_expand`), if no variable can be
captured on the way (`Nesting.Apart`): it is neither the variable of a loop around it nor a segment
of a collection there, and stands nowhere but at the beginning of the paths inside its loop.
-/

namespace Stencil

/-! ## The collections of loops -/

/-- A value that a loop may run through without meeting a key other than a position. -/
def Value.IsSequence : Value → Prop
  | list items => items.length ≤ UInt64.size
  | dict _ => False
  | _ => True

instance : (value : Value) → Decidable value.IsSequence
  | .list items => inferInstanceAs (Decidable (items.length ≤ UInt64.size))
  | .dict _ => inferInstanceAs (Decidable False)
  | .null | .bool _ | .int _ | .float _ | .str _ => inferInstanceAs (Decidable True)

namespace LoopHeader

/-- The elements that the loop visits. A collection inside a value may be missing. -/
def elements (header : LoopHeader) (context : Context) : Except Error (List Value) :=
  match context.get? header.collection with
  | some value => .ok value.elements
  | none => if header.isNested then .ok [] else .error (.missingCollection header.collection)

/-- **A loop inside others**, the innermost first, in which the variables are told apart: its own is
a new name that stands in none of their collections, and theirs stand in its tag nowhere but at the
beginning of its collection. -/
structure IsApart (outer : List LoopHeader) (header : LoopHeader) : Prop where
  identifier : header.variableName.IsIdentifier
  not_keyword : header.variableName ∉ tagKeywords
  not_in : ∀ h ∈ outer, h.variableName ≠ "in".toList
  names : ∀ h ∈ outer, h.variableName ≠ header.variableName
  collections : ∀ h ∈ outer, header.variableName ∉ Context.segments h.collection
  leads : ∀ h ∈ outer, Context.OnlyLeads h.variableName header.collection

instance (outer : List LoopHeader) (header : LoopHeader) : Decidable (header.IsApart outer) :=
  decidable_of_iff (_ ∧ _ ∧ _ ∧ _ ∧ _ ∧ _)
    ⟨fun ⟨a, b, c, d, e, f⟩ => ⟨a, b, c, d, e, f⟩, fun ⟨a, b, c, d, e, f⟩ => ⟨a, b, c, d, e, f⟩⟩

end LoopHeader

namespace Nesting

/-! ## Trees of loops -/

/-- **A nest of loops**: lines of text with references, and loops with headers that can be read. -/
def IsLoops : Nesting → Prop
  | done => True
  | text line rest => (line.rendered = false ∧ line.text.IsPassage) ∧ rest.IsLoops
  | span d opening body closing rest =>
    (d = .loop ∧ opening.OpensLoop ∧ closing.ClosesLoop) ∧ body.IsLoops ∧ rest.IsLoops

/-- **The variables are told apart**, inside these loops, the innermost first. -/
def Apart : Nesting → (outer : List LoopHeader) → Prop
  | done, _ => True
  | text line rest, outer =>
    (∀ p ∈ line.text.references, ∀ h ∈ outer, Context.OnlyLeads h.variableName p) ∧
      rest.Apart outer
  | span _ opening body _ rest, outer =>
    (∀ header ∈ opening.header?, header.IsApart outer ∧ body.Apart (header :: outer)) ∧
      rest.Apart outer

/-- The loops run through lists, whatever elements their variables are bound to. -/
def OverLists : Nesting → Context → Prop
  | done, _ => True
  | text _ rest, context => rest.OverLists context
  | span _ opening body _ rest, context =>
    (∀ header ∈ opening.header?, ∀ value ∈ context.get? header.collection, value.IsSequence ∧
      ∀ x ∈ value.elements, body.OverLists (context.insert header.variableName x)) ∧
    rest.OverLists context

instance decidableIsLoops : (n : Nesting) → Decidable n.IsLoops
  | done => inferInstanceAs (Decidable True)
  | text line rest =>
    have := decidableIsLoops rest
    inferInstanceAs (Decidable ((line.rendered = false ∧ line.text.IsPassage) ∧ rest.IsLoops))
  | span d opening body closing rest =>
    have := decidableIsLoops body
    have := decidableIsLoops rest
    inferInstanceAs (Decidable
      ((d = .loop ∧ opening.OpensLoop ∧ closing.ClosesLoop) ∧ body.IsLoops ∧ rest.IsLoops))

instance decidableApart : (n : Nesting) → (outer : List LoopHeader) → Decidable (n.Apart outer)
  | done, _ => inferInstanceAs (Decidable True)
  | text line rest, outer =>
    have := decidableApart rest outer
    inferInstanceAs (Decidable
      ((∀ p ∈ line.text.references, ∀ h ∈ outer, Context.OnlyLeads h.variableName p) ∧
        rest.Apart outer))
  | span _ opening body _ rest, outer =>
    have := fun header => decidableApart body (header :: outer)
    have := decidableApart rest outer
    inferInstanceAs (Decidable
      ((∀ header ∈ opening.header?, header.IsApart outer ∧ body.Apart (header :: outer)) ∧
        rest.Apart outer))

instance decidableOverLists : (n : Nesting) → (context : Context) → Decidable (n.OverLists context)
  | done, _ => inferInstanceAs (Decidable True)
  | text _ rest, context => decidableOverLists rest context
  | span _ opening body _ rest, context =>
    have := decidableOverLists body
    have := decidableOverLists rest context
    inferInstanceAs (Decidable
      ((∀ header ∈ opening.header?, ∀ value ∈ context.get? header.collection, value.IsSequence ∧
        ∀ x ∈ value.elements, body.OverLists (context.insert header.variableName x)) ∧
      rest.OverLists context))

/-! ## Lexical scoping -/

/-- The texts of a loop's body for one element after the other, without those that are empty. -/
def elementTexts (run : Nat → Value → Except Error Text) :
    (position : Nat) → (elements : List Value) → Except Error (List Text)
  | _, [] => .ok []
  | position, x :: elements => do
    let text ← run position x
    let texts ← elementTexts run (position + 1) elements
    return if text.isEmpty then texts else text :: texts

/-- The lines of a loop of which the body renders to these texts, one for each element. -/
def loopLines (context : Context) (header : LoopHeader) (opening : Line) (body : Nesting)
    (closing : Line) (run : Nat → Value → Except Error Text) : Except Error (List Line) := do
  let elements ← header.elements context
  let texts ← elementTexts run 0 elements
  return consumed opening body (closing.fill (Text.join (Render.separator body.lines) texts))

/-- **What a nest of loops renders to** by lexical scoping, in the iteration of the innermost loop
around it at a position. In the body of a loop its variable is bound to the current element. -/
def renderBound (engine : Engine) (context : Context) :
    Nesting → (scope : List (Text × Value)) → (position : Nat) → Except Error (List Line)
  | done, _, _ => .ok []
  | text line rest, scope, position => do
    let behind ← rest.renderBound engine context scope position
    return (line.numberedIn (scope.map Prod.fst) position).rewrite engine
      (context.withScope scope) :: behind
  | span _ opening body closing rest, scope, position => do
    let here ← match opening.header? with
      | none => .ok []
      | some header => loopLines (context.withScope scope) header opening body closing fun i x =>
        (body.renderBound engine context ((header.variableName, x) :: scope) i).map outText
    let behind ← rest.renderBound engine context scope position
    return here ++ behind

theorem renderBound_span_of_some {opening : Line} {header : LoopHeader}
    (h : opening.header? = some header) (engine : Engine) (context : Context) (d : Directive)
    (body : Nesting) (closing : Line) (rest : Nesting) (scope : List (Text × Value))
    (position : Nat) :
    (span d opening body closing rest).renderBound engine context scope position =
      (loopLines (context.withScope scope) header opening body closing fun i x =>
        (body.renderBound engine context ((header.variableName, x) :: scope) i).map outText).bind
      fun here => (rest.renderBound engine context scope position).map (here ++ ·) := by
  rw [renderBound, h]
  rfl

/-- The page of a nest of loops by lexical scoping. -/
def boundPage (engine : Engine) (context : Context) (n : Nesting) : Except Error Text := do
  let out ← n.renderBound engine context [] 0
  return if out.any fun line => !Text.isBlank line.text then outText out else []

end Nesting

end Stencil
