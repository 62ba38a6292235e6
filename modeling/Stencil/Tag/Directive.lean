import Stencil.Tag.Basic

/-!
# Directives

The tags a render acts on. Every directive that occurs on a line takes effect, in one fixed order;
interpolation comes last because its delimiters can enclose other tags.
-/

namespace Stencil

/-- What a tag asks for. -/
inductive Directive where
  /-- Names the parent of the template. -/
  | inherits
  /-- Puts another template in the place of the tag. -/
  | includes
  /-- Opens a named block. -/
  | block
  /-- Opens the body of a loop. -/
  | loop
  /-- Opens the body of a condition. -/
  | condition
  /-- Links to a static file. -/
  | asset
  /-- Links to a route. -/
  | route
  /-- Shows a value. -/
  | interpolation
deriving DecidableEq, Repr

namespace Directive

/-- The order in which directives take effect on a line. -/
def order : List Directive :=
  [inherits, includes, block, loop, condition, asset, route, interpolation]

/-- The tag of the directive; for a directive with a body, the one that opens it. -/
def pattern : Directive → Pattern
  | inherits => Pattern.keyword "extends".toList
  | includes => Pattern.keyword "include".toList
  | block => Pattern.keyword "block".toList
  | loop => Pattern.keyword "for".toList
  | condition => Pattern.keyword "if".toList
  | asset => Pattern.keyword "static".toList
  | route => Pattern.keyword "url".toList
  | interpolation => Pattern.interpolation

/-- The tag that closes the body of the directive, if it has one. -/
def closing? : Directive → Option Pattern
  | block => some (Pattern.labelled "endblock".toList)
  | loop => some (Pattern.bare "endfor".toList)
  | condition => some (Pattern.bare "endif".toList)
  | _ => none

/-- Whether the directive occurs in a text. -/
def occursIn (d : Directive) (t : Text) : Bool := d.pattern.occursIn t

/-- Whether the tag that closes the body of the directive occurs in a text. -/
def closesIn (d : Directive) (t : Text) : Bool :=
  match d.closing? with
  | some p => p.occursIn t
  | none => false

/-- The first tag of the directive in a text. -/
def find? (d : Directive) (t : Text) : Option Tag := d.pattern.find? t

end Directive

end Stencil
