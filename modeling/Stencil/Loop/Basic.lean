import Stencil.Layer.Line
import Stencil.Tag.Directive
import Stencil.Text.Numeric
import Stencil.Value.Basic

/-!
# Loops

A loop names a variable and a collection. The variable is never bound: each iteration has a copy of
the body in which paths that start with the variable are turned into paths into the collection,
and which is then rendered like any other text. This is done inside tags only, and not inside
quotes.
-/

namespace Stencil

/-- The variable and the collection of a loop. -/
structure LoopHeader where
  /-- The name that the body uses for the current element. -/
  variableName : Text
  /-- The path of the collection. -/
  collection : Text
deriving DecidableEq, Repr

/-- Whether the character may stand in a path. -/
def isPathPart (c : Char) : Bool := isAlphanumeric c || c == '_' || c == '.'

/-- Whether a path may start with the character. -/
def isPathStart (c : Char) : Bool := isAlphabetic c || c == '_'

namespace LoopHeader

/-- Whether the word can be a variable or a collection. -/
def isPath (word : Text) : Bool := !word.isEmpty && word.all isPathPart

/-- Reads the argument of the tag that opens a loop: a variable, the word "in" and a collection. -/
def ofArgument? (argument : Text) : Option LoopHeader :=
  match Text.words argument with
  | [variableName, middle, collection] =>
    if middle = "in".toList && isPath variableName && isPath collection then
      some ⟨variableName, collection⟩
    else none
  | _ => none

/-- What the layers of the iterations are called. -/
def key (header : LoopHeader) : Text := header.variableName ++ ':' :: header.collection

/-- Whether the collection lies inside a value, so that it may be missing. -/
def isNested (header : LoopHeader) : Bool := header.collection.contains '.'

end LoopHeader

/-- The keys that a loop runs through: the positions of a list, the keys of a mapping. -/
def iterationKeys : Value → List Text
  | .list items => (List.range items.length).map Text.ofNat
  | .dict entries => entries.map (·.1)
  | _ => []

/-- One run of a loop's body. -/
structure Iteration where
  /-- The loop. -/
  header : LoopHeader
  /-- The key of the current element. -/
  key : Text
  /-- What the current element displays. -/
  literal : Text
  /-- The number of runs before this one. -/
  position : Nat

end Stencil
