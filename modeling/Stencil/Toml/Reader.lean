import Stencil.Toml.Scalar
import Stencil.Toml.Table

/-!
# Reading TOML

A document is read statement by statement: a header with the path of a table, or a key with a value.
The statements then fill the tables in their order. Values nest, and so do the tables that a dotted
key spells out; both are limited.
-/

namespace Stencil.Toml

/-- How many parts a dotted key has to stay below, and how deep values have to stay nested below. -/
def depthLimit : Nat := 80

/-- A key: the path to a table, and the last part. -/
abbrev Key := List Text × Text

/-- A statement of a document. -/
inductive Statement where
  /-- The header of a table. -/
  | header (key : Key)
  /-- The header of a further table in an array. -/
  | element (key : Key)
  /-- A key with its value. -/
  | entry (key : Key) (value : Value)

namespace Reader

/-- The rest of a line without spaces and comment, from behind the line end, if nothing else stands
on it. -/
def restOfLine? (t : Text) : Option Text :=
  let t := match skipSpaces t with
    | '#' :: t => t.dropWhile isPrintable
    | t => t
  if t.isEmpty then some [] else lineEnd? t

/-- The text without spaces, comments and line ends at its start; the count bounds the lines. -/
def skipLines : Nat → Text → Text
  | 0, t => t
  | n + 1, t =>
    let t := skipSpaces t
    match t with
    | [] => []
    | c :: _ =>
      if c == '#' || c == '\n' || c == '\r' then
        match restOfLine? t with
        | some t => skipLines n t
        | none => t
      else t

/-- One part of a key: a quoted string, or letters, digits, hyphens and underscores. -/
def keyPart? (t : Text) : Option (Text × Text) :=
  let isBare := fun (c : Char) => c.isAlphanum || c == '-' || c == '_'
  match t with
  | '"' :: _ | '\'' :: _ => shortString? t
  | t =>
    let part := t.takeWhile isBare
    if part.isEmpty then none else some (part, t.dropWhile isBare)

/-- The parts of a key with points between them; the count bounds their number. -/
def keyParts? : Nat → Text → Option (List Text × Text)
  | 0, _ => none
  | n + 1, t => do
    let (part, t) ← keyPart? (skipSpaces t)
    match skipSpaces t with
    | '.' :: t =>
      let (parts, t) ← keyParts? n t
      return (part :: parts, t)
    | t => return ([part], t)

/-- A key with the spaces around it. -/
def key? (t : Text) : Option (Key × Text) := do
  let (parts, t) ← keyParts? (depthLimit - 1) t
  return ((parts.dropLast, ← parts.getLast?), t)

mutual

/-- A value, in which values are nested at most `room` deep. The count bounds the calls. -/
def value? : Nat → (room : Nat) → Text → Option (Value × Text)
  | 0, _, _ => none
  | n + 1, room, t =>
    match t with
    | '[' :: t => if room = 0 then none else (items? n (room - 1) t).map fun (l, t) => (.array l, t)
    | '\x7b' :: t =>
      if room = 0 then none
      else
        match skipSpaces t with
        | '\x7d' :: t => some (.table [], t)
        | t => do
          let (members, t) ← members? n (room - 1) t
          return (.table (Item.toEntries (← Table.ofMembers? members)), t)
    | t => scalar? t

/-- The items of an array and its closing bracket. A comma may follow the last item, and lines may
end anywhere between items. -/
def items? : Nat → (room : Nat) → Text → Option (List Value × Text)
  | 0, _, _ => none
  | n + 1, room, t =>
    match skipLines t.length t with
    | ']' :: t => some ([], t)
    | t =>
      match value? n room t with
      | none => none
      | some (item, t) =>
        match skipLines t.length t with
        | ',' :: t => (items? n room t).map fun (items, t) => (item :: items, t)
        | ']' :: t => some ([item], t)
        | _ => none

/-- One or more keys with values and the closing brace, all on one line. -/
def members? : Nat → (room : Nat) → Text → Option (List (Key × Value) × Text)
  | 0, _, _ => none
  | n + 1, room, t =>
    match key? t with
    | some (key, '=' :: t) =>
      match value? n room (skipSpaces t) with
      | none => none
      | some (value, t) =>
        match skipSpaces t with
        | ',' :: t => (members? n room t).map fun (members, t) => ((key, value) :: members, t)
        | '\x7d' :: t => some ([(key, value)], t)
        | _ => none
    | _ => none

end

/-- A statement with the line end after it. -/
def statement? (t : Text) : Option (Statement × Text) :=
  match t with
  | '[' :: '[' :: t => do
    let (key, t) ← key? t
    return (.element key, ← restOfLine? (← Text.after? "]]".toList t))
  | '[' :: t => do
    let (key, t) ← key? t
    return (.header key, ← restOfLine? (← Text.after? "]".toList t))
  | t => do
    let (key, t) ← key? t
    let t ← Text.after? "=".toList t
    let (value, t) ← value? (2 * t.length + 1) (depthLimit - 1) (skipSpaces t)
    return (.entry key value, ← restOfLine? t)

/-- The statements of a document; the count bounds their number. -/
def statements? : Nat → Text → Option (List Statement)
  | 0, _ => none
  | n + 1, t =>
    match skipLines t.length t with
    | [] => some []
    | t => do
      let (statement, t) ← statement? t
      return statement :: (← statements? n t)

end Reader

/-- The table that the statements fill, from behind a header on. -/
def fill (header : List Text) (table : Table) : List Statement → Option Table
  | [] => some table
  | .header (path, key) :: rest => do fill (path ++ [key]) (← table.declare path key) rest
  | .element (path, key) :: rest => do fill (path ++ [key]) (← table.append path key) rest
  | .entry (path, key) value :: rest => do fill header (← table.assignIn header path key value) rest

/-- The JSON value of a document, which may begin with a byte order mark. -/
def ofText? (t : Text) : Option Json := do
  let t := match t with
    | '\ufeff' :: t => t
    | t => t
  let table ← fill [] [] (← Reader.statements? (t.length + 1) t)
  (Value.table (Item.toEntries table)).toJson?

end Stencil.Toml
