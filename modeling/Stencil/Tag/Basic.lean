import Stencil.Tag.Scan
import Stencil.Text.Word

/-!
# The shapes of tags

A tag stands between double braces or between a brace and a percent sign. Its argument is the
shortest stretch of one line that ends, blanks aside, at the closing delimiter; so an argument may
hold blanks and even opening delimiters, and a tag never reaches over the end of a line other than
by blanks at its two ends.
-/

namespace Stencil

namespace Tag

/-- The start of a tag with a keyword. -/
def opening : Text := ['{', '%']

/-- The end of a tag with a keyword. -/
def closing : Text := ['%', '}']

/-- The start of an interpolation. -/
def openingBraces : Text := ['{', '{']

/-- The end of an interpolation. -/
def closingBraces : Text := ['}', '}']

/-- Blanks and then `delimiter`, at the start of a text. -/
def blanksThen? (delimiter t : Text) : Option Text :=
  if Text.startsWith delimiter t.trimStart then some (t.indent ++ delimiter) else none

/-- The shortest stretch of at least one character and no line end after which `delimiter` stands,
blanks aside; returned with the blanks and the delimiter. -/
def argument? (delimiter : Text) : Text → Option (Text × Text)
  | [] => none
  | c :: cs =>
    if c = '\n' then none
    else
      match blanksThen? delimiter cs with
      | some tail => some ([c], tail)
      | none => (argument? delimiter cs).map fun (argument, tail) => (c :: argument, tail)

/-- The shortest stretch without a line end up to and with `delimiter`. -/
def upTo? (delimiter : Text) : Text → Option Text
  | [] => none
  | c :: cs =>
    if Text.startsWith delimiter (c :: cs) then some delimiter
    else if c = '\n' then none
    else (upTo? delimiter cs).map (c :: ·)

/-- The tag that begins with `head` and goes on in `t` with at least `blanks` blanks and an
argument. All blanks stand before the argument, unless the delimiter follows on them: then the last
of them that neither is a line end nor one of the required blanks counts as the argument, which is
empty once trimmed. -/
def withArgument? (head delimiter : Text) (blanks : Nat) (t : Text) : Option Tag :=
  let indent := Text.indent t
  let body := Text.trimStart t
  if indent.length < blanks then none
  else
    match argument? delimiter body with
    | some (argument, tail) => some ⟨head ++ indent ++ argument ++ tail, argument⟩
    | none =>
      if Text.startsWith delimiter body && (indent.drop blanks).any (· ≠ '\n') then
        some ⟨head ++ indent ++ delimiter, []⟩
      else none

/-- The opening delimiter, blanks and `keyword` at the start of a text, and what follows. -/
def keyword? (keyword t : Text) : Option (Text × Text) := do
  let inner ← Text.after? opening t
  let rest ← Text.after? keyword (Text.trimStart inner)
  return (opening ++ Text.indent inner ++ keyword, rest)

end Tag

namespace Pattern

/-- A tag with a keyword and an argument. -/
def keyword (keyword : Text) : Pattern := fun t => do
  let (head, rest) ← Tag.keyword? keyword t
  Tag.withArgument? head Tag.closing 1 rest

/-- An interpolation. -/
def interpolation : Pattern := fun t => do
  let rest ← Text.after? Tag.openingBraces t
  Tag.withArgument? Tag.openingBraces Tag.closingBraces 0 rest

/-- A tag with a keyword and nothing else. -/
def bare (keyword : Text) : Pattern := fun t => do
  let (head, rest) ← Tag.keyword? keyword t
  let tail ← Tag.blanksThen? Tag.closing rest
  return ⟨head ++ tail, []⟩

/-- A tag with a keyword and possibly a label of word characters and hyphens. -/
def labelled (keyword : Text) : Pattern := fun t => do
  let (head, rest) ← Tag.keyword? keyword t
  let indent := Text.indent rest
  let label := (Text.trimStart rest).takeWhile fun c => isWordChar c || c == '-'
  let behind := (Text.trimStart rest).dropWhile fun c => isWordChar c || c == '-'
  if indent.isEmpty || label.isEmpty then
    let tail ← Tag.blanksThen? Tag.closing rest
    return ⟨head ++ tail, []⟩
  else
    let tail ← Tag.blanksThen? Tag.closing behind
    return ⟨head ++ indent ++ label ++ tail, label⟩

/-- The keyword of a structural tag at the start of a text: one of three words, possibly after the
word that closes, and with no word character behind it. -/
def structuralWord? (t : Text) : Option (Text × Text) :=
  let (ending, t) := match Text.after? "end".toList t with
    | some rest => ("end".toList, rest)
    | none => (([] : Text), t)
  ["block".toList, "for".toList, "if".toList].findSome? fun word => do
    let rest ← Text.after? word t
    if (rest.head?.map isWordChar).getD false then none else some (ending ++ word, rest)

/-- A tag that opens or closes a block, a loop or a condition, whatever else it holds. -/
def structural : Pattern := fun t => do
  let inner ← Text.after? Tag.opening t
  let (word, rest) ← structuralWord? (Text.trimStart inner)
  let tail ← Tag.upTo? Tag.closing rest
  return ⟨Tag.opening ++ Text.indent inner ++ word ++ tail, []⟩

/-- Any span between double braces or between a brace and a percent sign. -/
def span : Pattern := fun t =>
  match Text.after? Tag.openingBraces t with
  | some rest => (Tag.upTo? Tag.closingBraces rest).map fun tail => ⟨Tag.openingBraces ++ tail, []⟩
  | none => do
    let rest ← Text.after? Tag.opening t
    let tail ← Tag.upTo? Tag.closing rest
    return ⟨Tag.opening ++ tail, []⟩

/-- The interpolation of the word that numbers the iterations of a loop. -/
def index : Pattern := fun t => do
  let inner ← Text.after? Tag.openingBraces t
  let rest ← Text.after? "index".toList (Text.trimStart inner)
  let tail ← Tag.blanksThen? Tag.closingBraces rest
  return ⟨Tag.openingBraces ++ Text.indent inner ++ "index".toList ++ tail, []⟩

end Pattern

/-- An argument without the blanks around it and without one pair of quotes around it. -/
def unquote (argument : Text) : Text :=
  let inner := fun (quote : Char) =>
    (Text.after? [quote] argument.trim).bind (Text.upTo? [quote])
  match inner '"' with
  | some t => t
  | none => (inner '\'').getD argument.trim

/-- A text, unless it shows nothing. -/
def visible (t : Text) : List Text :=
  if Text.isBlank t then [] else [t]

/-- Cuts a line so that each structural tag has a segment of its own. Blank stretches beside such a
tag are dropped; a line without one stays whole, also if it is blank. -/
def splitStructural (line : Text) : List Text :=
  match Pattern.cut (Pattern.scan Pattern.structural line) with
  | (_, []) => [line]
  | (before, tags) => visible before ++ tags.flatMap fun (tag, gap) => tag.source :: visible gap

end Stencil
