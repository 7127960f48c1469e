import Highlight.Toml.Value

/-!
# Assembling tables

A document defines its tables piece by piece: by headers, by arrays of tables
and by dotted keys.  While it is read, each table remembers how it came to be,
because that decides what may still be added to it: a header may complete a
table that so far only stood in the path of another header, and dotted keys
may only extend tables that dotted keys made.
-/

namespace Highlight.Toml

/-- How a table came to be: by its own header, as a parent in the path of
another header, or by a dotted key. -/
inductive Origin where
  | header
  | parent
  | dotted
  deriving DecidableEq

/-- An entry of a table under construction: a finished value, a table, or an
array of tables. -/
inductive Item where
  | value (value : Toml)
  | table (origin : Origin) (entries : List (String × Item))
  | tables (elements : List (List (String × Item)))

/-- The entries of a table under construction. -/
abbrev Items := List (String × Item)

namespace Items

/-- Replaces the entry under a key that is there. -/
def replace (items : Items) (key : String) (item : Item) : Items :=
  items.map fun entry => if entry.1 = key then (key, item) else entry

/-- Changes the table at the end of a path, and makes the tables on the way
that are not there.  Dotted paths do not enter tables that have a header; a
path enters an array of tables at its last one. -/
def descend (dotted : Bool) (change : Origin → Items → Option Items) :
    List String → Origin → Items → Option Items
  | [], origin, items => change origin items
  | key :: path, _, items =>
      match items.lookup key with
      | none => do
          let origin := if dotted then .dotted else .parent
          let inner ← descend dotted change path origin []
          some (items ++ [(key, .table origin inner)])
      | some (.value _) => none
      | some (.table origin inner) => do
          if dotted ∧ origin = .header then none
          else
            let inner ← descend dotted change path origin inner
            some (items.replace key (.table origin inner))
      | some (.tables elements) => do
          let last ← elements.getLast?
          let inner ← descend dotted change path .header last
          some (items.replace key (.tables (elements.dropLast ++ [inner])))

/-- Adds a value under a key that is not there yet. -/
def insertNew (items : Items) (key : String) (value : Toml) : Option Items :=
  match items.lookup key with
  | none => some (items ++ [(key, .value value)])
  | some _ => none

/-- Adds a value under a dotted key.  The last key goes into a table made by
dotted keys if others come before it, and only then. -/
def insertDotted (origin : Origin) (items : Items) (path : List String) (value : Toml) :
    Option Items :=
  let parents := path.dropLast
  descend true (fun inner entries =>
    if (inner = .dotted) ↔ parents = [] then none
    else path.getLast?.bind fun key => entries.insertNew key value) parents origin items

/-- Opens the table of a header. -/
def openTable (items : Items) (path : List String) : Option Items :=
  descend false (fun _ entries => do
    let key ← path.getLast?
    match entries.lookup key with
    | none => some (entries ++ [(key, .table .header [])])
    | some (.table .parent inner) => some (entries.replace key (.table .header inner))
    | some _ => none) path.dropLast .header items

/-- Opens a further table of an array of tables. -/
def openElement (items : Items) (path : List String) : Option Items :=
  descend false (fun _ entries => do
    let key ← path.getLast?
    match entries.lookup key with
    | none => some (entries ++ [(key, .tables [[]])])
    | some (.tables elements) => some (entries.replace key (.tables (elements ++ [[]])))
    | some _ => none) path.dropLast .header items

end Items

mutual

/-- The value of a finished entry. -/
def Item.finish : Item → Toml
  | .value value => value
  | .table _ entries => .table (finishEntries entries)
  | .tables elements => .array (finishTables elements)

/-- The values of finished entries. -/
def finishEntries : List (String × Item) → List (String × Toml)
  | [] => []
  | (key, item) :: rest => (key, item.finish) :: finishEntries rest

/-- The values of finished tables. -/
def finishTables : List (List (String × Item)) → List Toml
  | [] => []
  | entries :: rest => .table (finishEntries entries) :: finishTables rest

end

/-! ## Statements -/

/-- A line of a document: a header, the header of an array's further table, or
a value under a dotted key. -/
inductive Statement where
  | table (path : List String)
  | element (path : List String)
  | assign (path : List String) (value : Toml)

/-- A document under construction: its entries and the path of the table that
values go into. -/
structure Document where
  items : Items := []
  current : List String := []

namespace Document

/-- Carries out a statement. -/
def add (document : Document) : Statement → Option Document
  | .table path => do
      some { items := ← document.items.openTable path, current := path }
  | .element path => do
      some { items := ← document.items.openElement path, current := path }
  | .assign path value => do
      let items ← Items.descend false
        (fun origin entries => Items.insertDotted origin entries path value)
        document.current .header document.items
      some { document with items }

/-- The table that a document defines. -/
def finish (document : Document) : Toml :=
  .table (finishEntries document.items)

/-- The table that some statements define. -/
def ofStatements? (statements : List Statement) : Option Toml :=
  (statements.foldlM add {}).map finish

end Document

/-- The table that the entries between two braces define. -/
def inlineTable? (entries : List (List String × Toml)) : Option Toml :=
  (entries.foldlM (fun items (path, value) => Items.insertDotted .header items path value)
    []).map fun items => .table (finishEntries items)

end Highlight.Toml
