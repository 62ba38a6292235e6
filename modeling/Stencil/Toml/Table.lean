import Stencil.Listing
import Stencil.Toml.Value

/-!
# Tables of TOML

A document fills a tree of tables piece by piece, and the rules of TOML say which pieces may meet. A
table can come about in three ways: by its own header, on the way to the header of another table, or
by a dotted key. A header may be given once, also after the table came about on the way to another;
a dotted key may only go on in tables that dotted keys made. A header with double brackets adds a
table to an array, and the way through the array leads to its last table. Keys keep the order in
which they came about.
-/

namespace Stencil.Toml

/-- How a table came about. -/
inductive Origin where
  /-- By a header, or as an element of an array. -/
  | declared
  /-- On the way to the header of another table. -/
  | implied
  /-- By a dotted key. -/
  | dotted
deriving DecidableEq, Repr

/-- What a key of a table leads to. -/
inductive Item where
  /-- A value. -/
  | leaf (value : Value)
  /-- A table. -/
  | table (origin : Origin) (entries : List (Text × Item))
  /-- An array of tables, which has at least one. -/
  | tables (earlier : List (List (Text × Item))) (last : List (Text × Item))
deriving Inhabited

namespace Item

mutual

/-- The value of an item. -/
def toValue : Item → Value
  | leaf value => value
  | table _ entries => .table (toEntries entries)
  | tables earlier last => .array (toItems earlier ++ [.table (toEntries last)])

/-- The values of the entries of a table. -/
def toEntries : List (Text × Item) → List (Text × Value)
  | [] => []
  | (key, item) :: rest => (key, toValue item) :: toEntries rest

/-- The values of tables. -/
def toItems : List (List (Text × Item)) → List Value
  | [] => []
  | entries :: rest => .table (toEntries entries) :: toItems rest

end

end Item

/-- The entries of a table, in the order in which their keys came about. -/
abbrev Table := List (Text × Item)

namespace Table

/-- Changes the table at the end of a path and makes those on the way that are missing. A path of a
dotted key leads through no table with a header of its own. -/
def update (dotted : Bool) (f : Origin → Table → Option Table) :
    (path : List Text) → Origin → Table → Option Table
  | [], origin, table => f origin table
  | key :: path, _, table =>
    match Listing.get? key table with
    | none =>
      let origin := if dotted then .dotted else .implied
      (update dotted f path origin []).map fun inner =>
        Listing.put key (.table origin inner) table
    | some (.leaf _) => none
    | some (.table origin inner) =>
      if dotted && origin = .declared then none
      else
        (update dotted f path origin inner).map fun inner =>
          Listing.put key (.table origin inner) table
    | some (.tables earlier last) =>
      (update dotted f path .declared last).map fun last =>
        Listing.put key (.tables earlier last) table

/-- The table with the value of a key, which may be dotted. -/
def assign (path : List Text) (key : Text) (value : Value) (table : Table) : Option Table :=
  update true
    (fun origin table =>
      if (!path.isEmpty && origin ≠ .dotted) || (Listing.get? key table).isSome then none
      else some (Listing.put key (.leaf value) table))
    path .declared table

/-- The table with the table of a header. One that came about on the way to another is taken out and
comes last. -/
def declare (path : List Text) (key : Text) (table : Table) : Option Table :=
  update false
    (fun _ table =>
      match Listing.get? key table with
      | none => some (Listing.put key (.table .declared []) table)
      | some (.table .implied inner) =>
        some (Listing.put key (.table .declared inner) (Listing.erase key table))
      | some _ => none)
    path .declared table

/-- The table with a further table in the array of a header. -/
def append (path : List Text) (key : Text) (table : Table) : Option Table :=
  update false
    (fun _ table =>
      match Listing.get? key table with
      | none => some (Listing.put key (.tables [] []) table)
      | some (.tables earlier last) =>
        some (Listing.put key (.tables (earlier ++ [last]) []) table)
      | some _ => none)
    path .declared table

/-- The table with a value in the table of a header. -/
def assignIn (header path : List Text) (key : Text) (value : Value) (table : Table) :
    Option Table :=
  update false (fun _ table => assign path key value table) header .declared table

/-- The table of keys with values, of which each key may be dotted. -/
def ofMembers? (members : List ((List Text × Text) × Value)) : Option Table :=
  members.foldlM (fun table ((path, key), value) => assign path key value table) []

end Table

end Stencil.Toml
