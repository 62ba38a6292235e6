import Stencil.Json.Basic
import Stencil.Toml.DateTime.Reader

/-!
# Values of TOML

What a key of a document can lead to. The entries of a table stand in the order in which their keys
came about, for the first of them matters: a table that begins with a reserved key stands for a
date-time, which the text under that key says, and its other entries are passed over.
-/

namespace Stencil.Toml

/-- A value of a document. -/
inductive Value where
  /-- A string. -/
  | text (s : Text)
  /-- A date-time. -/
  | dateTime (d : DateTime)
  /-- A whole number. -/
  | integer (n : Int)
  /-- A float. -/
  | float (x : Float)
  /-- A truth value. -/
  | truth (b : Bool)
  /-- An array. -/
  | array (items : List Value)
  /-- A table. -/
  | table (entries : List (Text × Value))
deriving Inhabited

namespace Value

/-- The reserved key of a table that stands for a date-time. -/
def dateTimeKey : Text := "$__toml_private_datetime".toList

/-- Whether a table stands for a date-time. -/
def isDateTime (entries : List (Text × Value)) : Bool :=
  (entries.head?.map (·.1)) == some dateTimeKey

/-- The date-time that a table stands for. -/
def dateTime? : List (Text × Value) → Option DateTime
  | (_, text s) :: _ => dateTimeOfText? s
  | _ => none

mutual

/-- The JSON value of a value, unless a table in it stands for a date-time and holds none. What is
no finite number has no JSON counterpart and is null, and a date-time is its text. -/
def toJson? : Value → Option Json
  | text s => some (.str s)
  | dateTime d => some (.str d.text)
  | integer n => some (.int n)
  | float x => some (if x.isFinite then .float x else .null)
  | truth b => some (.bool b)
  | array items => (itemsToJson? items).map .arr
  | table entries =>
    if isDateTime entries then (dateTime? entries).map fun d => .str d.text
    else (entriesToJson? entries).map fun l => .obj (Entries.ofList l)

/-- The JSON values of the items of an array. -/
def itemsToJson? : List Value → Option (List Json)
  | [] => some []
  | item :: rest => do return (← toJson? item) :: (← itemsToJson? rest)

/-- The JSON values of the entries of a table. -/
def entriesToJson? : List (Text × Value) → Option (List (Text × Json))
  | [] => some []
  | (key, value) :: rest => do return (key, ← toJson? value) :: (← entriesToJson? rest)

end

end Value

end Stencil.Toml
