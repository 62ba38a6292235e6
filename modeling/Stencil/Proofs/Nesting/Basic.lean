import Stencil.Capture
import Stencil.Condition.Evaluation
import Stencil.Interpolation
import Stencil.Proofs.Expansion.Headers
import Stencil.Render.Body

/-!
# Nested templates

The renderer reads a template line by line. A `Nesting` is the same template as a tree: lines of
text, and spans of a line that opens a body, the body, and a line that closes it. `Nesting.render`
says what becomes of its lines by recursion over the tree, without captures, layers or sessions;
`Nesting.page` is the page.

A body that is replaced is not rendered. What replaces it depends on the name of a block only, so
that the meaning of a template is one function of the blocks that replace others; for a template
that stands alone there are none.
-/

namespace Stencil

/-! ## Lines by what they open and close -/

/-- The directives other than links and values that occur in a text. -/
def opened (t : Text) : List Directive :=
  [.inherits, .includes, .block, .loop, .condition].filter fun d => d.occursIn t

/-- The directives whose bodies are closed in a text. -/
def closed (t : Text) : List Directive := [.block, .loop, .condition].filter fun d => d.closesIn t

/-- Whether the text is one tag. -/
def isTag (t : Text) : Bool := (Pattern.span t).any fun tag => tag.source = t

namespace Line

/-- The line neither opens nor closes anything. -/
def IsPlain (line : Line) : Prop :=
  line.rendered = true ∨ opened line.text = [] ∧ closed line.text = []

/-- The line is a tag that opens the body of the directive. -/
structure Opens (d : Directive) (line : Line) : Prop where
  not_rendered : line.rendered = false
  opened : opened line.text = [d]
  closed : closed line.text = []
  isTag : isTag line.text = true

/-- The line is a tag that closes the body of the directive. -/
structure Closes (d : Directive) (line : Line) : Prop where
  not_rendered : line.rendered = false
  opened : Stencil.opened line.text = []
  closed : Stencil.closed line.text = [d]
  isTag : Stencil.isTag line.text = true

instance (line : Line) : Decidable line.IsPlain :=
  inferInstanceAs (Decidable (line.rendered = true ∨ opened line.text = [] ∧ closed line.text = []))

instance (d : Directive) (line : Line) : Decidable (line.Opens d) :=
  decidable_of_iff (_ ∧ _ ∧ _ ∧ _)
    ⟨fun ⟨a, b, c, e⟩ => ⟨a, b, c, e⟩, fun ⟨a, b, c, e⟩ => ⟨a, b, c, e⟩⟩

instance (d : Directive) (line : Line) : Decidable (line.Closes d) :=
  decidable_of_iff (_ ∧ _ ∧ _ ∧ _)
    ⟨fun ⟨a, b, c, e⟩ => ⟨a, b, c, e⟩, fun ⟨a, b, c, e⟩ => ⟨a, b, c, e⟩⟩

/-- The argument of the tag that opens a body. -/
def argument (d : Directive) (line : Line) : Text :=
  ((d.find? line.text).map Tag.argument).getD []

/-- The header of the loop that the line opens, if it can be read. -/
def header? (line : Line) : Option LoopHeader := LoopHeader.ofText? line.text

/-- What the line opens a body for. There is nothing if it is the line of a loop whose header cannot
be read. -/
def construct? (d : Directive) (line : Line) : Option Construct :=
  match d with
  | .block => some (.block (line.argument .block))
  | .loop => line.header?.map fun header => .loop header.variableName header.collection
  | .condition => some (.condition (line.argument .condition))
  | _ => none

/-- What the line begins a body for: the first that it opens one for, in the order of the
directives. -/
def begins? (line : Line) : Option Construct :=
  [Directive.block, .loop, .condition].findSome? fun d =>
    if d.occursIn line.text then line.construct? d else none

/-- The line with its links and values put in: first the static links, then those to routes, then
the values. -/
def rewrite (engine : Engine) (context : Context) (line : Line) : Line :=
  if line.rendered then line
  else
    let line := if Directive.asset.occursIn line.text then line.edit (engine.linkAssets line.text)
      else line
    let line := if Directive.route.occursIn line.text then line.edit (engine.linkRoutes line.text)
      else line
    if Directive.interpolation.occursIn line.text then line.edit (context.interpolate line.text)
    else line

end Line

/-! ## Trees of lines -/

/-- Lines as a tree: each constructor holds the first line or span, and what comes after it. -/
inductive Nesting where
  /-- No lines. -/
  | done
  /-- A line of text. -/
  | text (line : Line) (rest : Nesting)
  /-- A body between the line that opens it and the line that closes it. -/
  | span (d : Directive) (opening : Line) (body : Nesting) (closing : Line) (rest : Nesting)
deriving DecidableEq, Repr, Inhabited

namespace Nesting

/-- The lines of the tree, from first to last. -/
def lines : Nesting → List Line
  | done => []
  | text line rest => line :: rest.lines
  | span _ opening body closing rest => opening :: (body.lines ++ closing :: rest.lines)

/-- The number of lines of text and of spans. -/
def size : Nesting → Nat
  | done => 0
  | text _ rest => rest.size + 1
  | span _ _ body _ rest => body.size + rest.size + 1

/-- How deep bodies are nested. -/
def height : Nesting → Nat
  | done => 0
  | text _ rest => rest.height
  | span _ _ body _ rest => max (body.height + 1) rest.height

/-- **Well-nested lines**: what is opened is closed, and kinds do not interleave. -/
def WellNested : Nesting → Prop
  | done => True
  | text line rest => line.IsPlain ∧ rest.WellNested
  | span d opening body closing rest =>
    opening.Opens d ∧ body.WellNested ∧ closing.Closes d ∧ rest.WellNested

instance decidableWellNested : (n : Nesting) → Decidable n.WellNested
  | done => inferInstanceAs (Decidable True)
  | text line rest =>
    have := decidableWellNested rest
    inferInstanceAs (Decidable (line.IsPlain ∧ rest.WellNested))
  | span d opening body closing rest =>
    have := decidableWellNested body
    have := decidableWellNested rest
    inferInstanceAs (Decidable
      (opening.Opens d ∧ body.WellNested ∧ closing.Closes d ∧ rest.WellNested))

end Nesting

/-! ## Expanding a tree -/

namespace Iteration

/-- The number of loops around a line inside the body, when there are `depth` before it. -/
def depthAt (depth : Nat) (line : Line) : Nat :=
  if Directive.loop.closesIn line.text then depth - 1 else depth

/-- The number of loops around the lines behind a line. -/
def depthBehind (depth : Nat) (line : Line) : Nat :=
  if Directive.loop.occursIn line.text then depthAt depth line + 1 else depthAt depth line

end Iteration

namespace Nesting

/-- The number of loops around what stands behind the tree. -/
def depthBehind (n : Nesting) (depth : Nat) : Nat := n.lines.foldl Iteration.depthBehind depth

/-- The tree for an iteration, from inside `depth` loops within the body on. -/
def expand (it : Iteration) (depth : Nat) : Nesting → Nesting
  | done => done
  | text line rest =>
    text (it.expandLine (Iteration.depthAt depth line) line)
      (rest.expand it (Iteration.depthBehind depth line))
  | span d opening body closing rest =>
    let inside := Iteration.depthBehind depth opening
    let behind := body.depthBehind inside
    span d (it.expandLine (Iteration.depthAt depth opening) opening) (body.expand it inside)
      (it.expandLine (Iteration.depthAt behind closing) closing)
      (rest.expand it (Iteration.depthBehind behind closing))

theorem expandFrom_append (it : Iteration) (depth : Nat) (ls rest : List Line) :
    it.expandFrom depth (ls ++ rest) =
      it.expandFrom depth ls ++ it.expandFrom (ls.foldl Iteration.depthBehind depth) rest := by
  induction ls generalizing depth with
  | nil => rfl
  | cons line ls ih =>
    simp only [List.cons_append, Iteration.expandFrom, List.foldl_cons]
    rw [ih]
    rfl

/-- **Expanding a tree expands its lines.** -/
theorem lines_expand (it : Iteration) (n : Nesting) (depth : Nat) :
    (n.expand it depth).lines = it.expandFrom depth n.lines := by
  induction n generalizing depth with
  | done => rfl
  | text line rest ih =>
    simp only [expand, lines, Iteration.expandFrom, ih]
    rfl
  | span d opening body closing rest ihb ihr =>
    simp only [expand, lines, Iteration.expandFrom, expandFrom_append, ihb, ihr]
    rfl

@[simp] theorem size_expand (it : Iteration) (n : Nesting) (depth : Nat) :
    (n.expand it depth).size = n.size := by
  induction n generalizing depth with
  | done => rfl
  | text line rest ih => simp [expand, size, ih]
  | span d opening body closing rest ihb ihr => simp [expand, size, ihb, ihr]

@[simp] theorem height_expand (it : Iteration) (n : Nesting) (depth : Nat) :
    (n.expand it depth).height = n.height := by
  induction n generalizing depth with
  | done => rfl
  | text line rest ih => simp [expand, height, ih]
  | span d opening body closing rest ihb ihr => simp [expand, height, ihb, ihr]

/-! ## What becomes of the lines -/

/-- The texts of the iterations of a loop from a position on, without those that are empty. -/
def iterationTexts (run : Nat → Text → Except Error Text) :
    (position : Nat) → (keys : List Text) → Except Error (List Text)
  | _, [] => .ok []
  | position, key :: keys => do
    let text ← run position key
    let texts ← iterationTexts run (position + 1) keys
    return if text.isEmpty then texts else text :: texts

/-- The text of lines after their turn. -/
def outText (out : List Line) : Text := Layer.renderFrom false false out

/-- The text of a template with these lines. -/
def source (n : Nesting) : Text := outText n.lines

/-- The lines of a span of which nothing is left but what stands in its closing line. -/
def consumed (opening : Line) (body : Nesting) (closing : Line) : List Line :=
  opening.blank :: (body.lines.map Line.blank ++ [closing])

/-- The closing line of a span with what comes of its body, when `rendered` is what the body renders
to, `iterated` what an iteration of it renders to, and `replaced?` gives what stands in the place of
the body of a block that is replaced. -/
def closeLine (context : Context) (replaced? : Text → Option Text) (body : Nesting) (closing : Line)
    (rendered : Except Error Text) (iterated : LoopHeader → Nat → Text → Except Error Text) :
    Construct → Except Error Line
  | .block name =>
    match replaced? name with
    | some content => .ok (closing.fill content)
    | none => rendered.map closing.fill
  | .loop variableName collection => do
    let keys ← Render.loopKeys context ⟨variableName, collection⟩
    let texts ← iterationTexts (iterated ⟨variableName, collection⟩) 0 keys
    return closing.fill (Text.join (Render.separator body.lines) texts)
  | .condition expression =>
    match Condition.evaluate expression context with
    | .ok true => rendered.map closing.fill
    | .ok false => .ok closing.blank
    | .error _ => .ok (closing.fill (Condition.errorText expression))

/-- **What becomes of the lines.** A span that is a body for nothing stands as text. -/
def render (engine : Engine) (context : Context) (replaced? : Text → Option Text) :
    Nesting → Except Error (List Line)
  | done => .ok []
  | text line rest => do
    let behind ← rest.render engine context replaced?
    return line.rewrite engine context :: behind
  | span d opening body closing rest => do
    let here ← match opening.construct? d with
      | none => (body.render engine context replaced?).map fun out =>
        opening.rewrite engine context :: (out ++ [closing.rewrite engine context])
      | some construct =>
        (closeLine context replaced? body closing
          ((body.render engine context replaced?).map outText)
          (fun header position key =>
            ((body.expand (Render.iteration context header key position) 0).render engine context
              replaced?).map outText)
          construct).map (consumed opening body)
    let behind ← rest.render engine context replaced?
    return here ++ behind
termination_by n => n.size
decreasing_by all_goals (simp only [size_expand, size]; omega)

section Equations

variable {engine : Engine} {context : Context} {replaced? : Text → Option Text}

@[simp] theorem render_done : done.render engine context replaced? = .ok [] := by rw [render]

theorem render_text (line : Line) (rest : Nesting) :
    (text line rest).render engine context replaced? =
      (rest.render engine context replaced?).map (line.rewrite engine context :: ·) := by
  rw [render]
  cases rest.render engine context replaced? <;> rfl

theorem render_span_of_none {d : Directive} {opening : Line} (h : opening.construct? d = none)
    (body : Nesting) (closing : Line) (rest : Nesting) :
    (span d opening body closing rest).render engine context replaced? =
      (body.render engine context replaced?).bind fun out =>
        (rest.render engine context replaced?).map fun behind =>
          opening.rewrite engine context :: (out ++ [closing.rewrite engine context]) ++ behind := by
  rw [render, h]
  cases body.render engine context replaced? with
  | error e => rfl
  | ok out => cases rest.render engine context replaced? <;> rfl

theorem render_span_of_some {d : Directive} {opening : Line} {construct : Construct}
    (h : opening.construct? d = some construct) (body : Nesting) (closing : Line)
    (rest : Nesting) :
    (span d opening body closing rest).render engine context replaced? =
      (closeLine context replaced? body closing
        ((body.render engine context replaced?).map outText)
        (fun header position key =>
          ((body.expand (Render.iteration context header key position) 0).render engine context
            replaced?).map outText)
        construct).bind fun line =>
          (rest.render engine context replaced?).map fun behind =>
            consumed opening body line ++ behind := by
  rw [render, h]
  simp only
  generalize closeLine context replaced? body closing _ _ construct = result
  cases result with
  | error e => rfl
  | ok line => cases rest.render engine context replaced? <;> rfl

end Equations

/-- **The page of a tree**: its lines after their turn, unless none of them shows anything. -/
def page (engine : Engine) (context : Context) (n : Nesting) : Except Error Text := do
  let out ← n.render engine context fun _ => none
  return if out.any fun line => !Text.isBlank line.text then outText out else []

end Nesting

end Stencil
