import Stencil.Layer.Line
import Stencil.Tag.Basic

/-!
# Layers

A layer is a list of lines with a note of where they come from: the template asked for, a parent, an
included template, one iteration of a loop, the body of a condition, or the body of a block.
-/

namespace Stencil

/-- Where the lines of a layer come from. -/
inductive LayerKind where
  /-- The template that was asked for. -/
  | main
  /-- A template that another one extends. -/
  | parent
  /-- An included template. -/
  | inclusion
  /-- One iteration of a loop. -/
  | iteration
  /-- The body of a condition that holds. -/
  | branch
  /-- The body of a block. -/
  | block
deriving DecidableEq, Repr, Inhabited

namespace LayerKind

/-- What the names of layers of this kind begin with. -/
def label? : LayerKind → Option Text
  | main => none
  | parent => some "extends".toList
  | inclusion => some "include".toList
  | iteration => some "loop".toList
  | branch => some "if".toList
  | block => some "block".toList

/-- Whether such a layer holds a whole template. -/
def isDocument : LayerKind → Bool
  | main | parent | inclusion => true
  | iteration | branch | block => false

end LayerKind

/-- A list of lines and where they come from. -/
structure Layer where
  /-- Where the lines come from. -/
  kind : LayerKind
  /-- The lines. -/
  lines : List Line
deriving DecidableEq, Repr, Inhabited

namespace Layer

/-- The lines that one line of a template is cut into. -/
def linesOfSource (source : Text) : List Line :=
  match splitStructural source with
  | [] => []
  | first :: rest => { text := first } :: rest.map fun text => { text, glued := true }

/-- The layer of the lines of a template. -/
def ofSource (kind : LayerKind) (source : List Text) : Layer :=
  { kind, lines := source.flatMap linesOfSource }

/-- Writes lines after other lines. `started` says whether a line has been written, and `broken`
whether a line that is not glued was dropped since. -/
def renderFrom (started broken : Bool) : List Line → Text
  | [] => []
  | line :: rest =>
    let broken := broken || !line.glued
    if line.discarded then renderFrom started broken rest
    else if started && broken then '\n' :: line.text ++ renderFrom true false rest
    else line.text ++ renderFrom true false rest

/-- The text of the layer. Discarded lines are left out, and a line end stands between two lines
unless all that comes after the first of them, up to the second, is glued. -/
def render (layer : Layer) : Text := renderFrom false false layer.lines

/-- Drops discarded lines. `broken` says whether a line that is not glued has just been dropped; the
next line that is kept is then not glued either. -/
def cleanFrom (broken : Bool) : List Line → List Line
  | [] => []
  | line :: rest =>
    if line.discarded then cleanFrom (broken || !line.glued) rest
    else { line with glued := line.glued && !broken } :: cleanFrom false rest

/-- The layer without its discarded lines. -/
def clean (layer : Layer) : Layer := { layer with lines := cleanFrom false layer.lines }

/-- Whether some line of the layer shows anything. -/
def isVisible (layer : Layer) : Bool := layer.lines.any fun line => !Text.isBlank line.text

/-- The layer with its line at a position changed. -/
def modify (layer : Layer) (i : Nat) (f : Line → Line) : Layer :=
  { layer with lines := layer.lines.modify i f }

end Layer

end Stencil
