import Stencil.Loop.Basic

/-!
# Expanding a body

The copy of a body for one iteration. A path whose first segment is the variable goes into the
collection at the current key; failing that, the first later segment that is the variable becomes
the text of the current element. The interpolation that numbers the iterations is replaced in the
lines that are not inside a loop within the body.
-/

namespace Stencil

namespace Iteration

/-- The segments with the first one that is `name` replaced. -/
def replaceFirst? (name replacement : Text) : List Text → Option (List Text)
  | [] => none
  | s :: rest =>
    if s = name then some (replacement :: rest)
    else (replaceFirst? name replacement rest).map (s :: ·)

/-- The path that a path of the body becomes, unless it stays as it is. -/
def resolve? (it : Iteration) (path : Text) : Option Text :=
  match Text.splitOn '.' path with
  | [] => none
  | first :: rest =>
    if first = it.header.variableName then
      let element := it.header.collection ++ '.' :: it.key
      let suffix := Text.join ['.'] rest
      some (if suffix.isEmpty then element else element ++ '.' :: suffix)
    else
      (replaceFirst? it.header.variableName it.literal rest).map fun rest =>
        Text.join ['.'] (first :: rest)

/-- Where the reader of a tag stands. -/
inductive Reading where
  /-- Outside quotes; `joined` says that the last character continues a path, so that none starts
  here. -/
  | plain (joined : Bool)
  /-- Inside quotes of this kind. -/
  | quoted (quote : Char)
  /-- Inside a path, of which these characters have been read, last one first. -/
  | path (reversed : Text)

/-- A path of the body with its replacement, if it has one. -/
def resolved (it : Iteration) (path : Text) : Text := (it.resolve? path).getD path

/-- The rest of a tag with its paths resolved. A path is as long as it can be, so that what follows
one never belongs to it. -/
def resolveFrom (it : Iteration) : Reading → Text → Text
  | .plain _, [] => []
  | .quoted _, [] => []
  | .path reversed, [] => it.resolved reversed.reverse
  | .quoted quote, c :: cs =>
    c :: it.resolveFrom (if c = quote then .plain (isPathPart c) else .quoted quote) cs
  | .plain joined, c :: cs =>
    if c == '"' || c == '\'' then c :: it.resolveFrom (.quoted c) cs
    else if isPathStart c && !joined then it.resolveFrom (.path [c]) cs
    else c :: it.resolveFrom (.plain (isPathPart c)) cs
  | .path reversed, c :: cs =>
    if isPathPart c then it.resolveFrom (.path (c :: reversed)) cs
    else if c == '"' || c == '\'' then
      it.resolved reversed.reverse ++ c :: it.resolveFrom (.quoted c) cs
    else it.resolved reversed.reverse ++ c :: it.resolveFrom (.plain false) cs

/-- The text of a tag with its paths resolved. -/
def resolveTag (it : Iteration) (source : Text) : Text := it.resolveFrom (.plain false) source

/-- A text with the paths in its tags resolved. -/
def resolveText (it : Iteration) (t : Text) : Text :=
  Pattern.span.replace (fun tag => it.resolveTag tag.source) t

/-- The text of a line outside loops within the body. -/
def numbered (it : Iteration) (t : Text) : Text :=
  Pattern.index.replace (fun _ => Text.ofNat (it.position + 1)) t

/-- A line of the body for this iteration, inside `depth` loops within the body. -/
def expandLine (it : Iteration) (depth : Nat) (line : Line) : Line :=
  if line.rendered then line
  else
    let text := it.resolveText line.text
    let text := if depth = 0 then it.numbered text else text
    if text = line.text then line else line.edit text

/-- The lines of a body for this iteration, from inside `depth` loops within the body on. A tag that
closes a loop belongs to the outside of it, and so does a tag that opens one. -/
def expandFrom (it : Iteration) (depth : Nat) : List Line → List Line
  | [] => []
  | line :: rest =>
    let depth := if Directive.loop.closesIn line.text then depth - 1 else depth
    let inside := if Directive.loop.occursIn line.text then depth + 1 else depth
    it.expandLine depth line :: it.expandFrom inside rest

/-- The body for this iteration. -/
def expand (it : Iteration) (body : List Line) : List Line := it.expandFrom 0 body

end Iteration

end Stencil
