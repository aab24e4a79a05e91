/-
# Tables under construction

Settings fill a table bit by bit: a header opens a table, a dotted key reaches into one, and a
doubled header starts the next table of a list. What may still be added to a table depends on
how it came about. A table that was only passed through by a header may be opened later; a table
made by dotted keys takes further dotted keys; everything else stands as it is, and no key is
given twice.

Key definitions: `Item`, `KeyPath`, `assign`, `within`, `openTable`, `openList`.
-/
import MarkupRules.Toml.Basic

namespace MarkupRules.Toml

/-- How a table came about. -/
inductive Opening where
  /-- A header passed through it on the way to another table. -/
  | passed
  /-- A header named it. -/
  | opened
  /-- A dotted key passed through it. -/
  | dotted
  deriving DecidableEq, Repr

/-- What stands under a key while the settings are read. -/
inductive Item where
  /-- A finished value. -/
  | value (v : Toml)
  /-- A table and how it came about. -/
  | table (how : Opening) (entries : List (String × Item))
  /-- A list of tables: the finished ones and the one that is being filled. -/
  | tables (earlier : List Toml) (last : List (String × Item))

/-- Keys joined by points: the tables on the way and the key in the last of them. -/
structure KeyPath where
  /-- The keys of the tables on the way. -/
  parents : List String
  /-- The last key. -/
  key : String
  deriving DecidableEq, Repr

/-- Entries under construction. -/
abbrev Items := List (String × Item)

mutual

/-- The value of a finished item. -/
def Item.finish : Item → Toml
  | .value v => v
  | .table _ entries => .table (finishAll entries)
  | .tables earlier last => .list (earlier ++ [.table (finishAll last)])

/-- The values of finished entries. -/
def finishAll : List (String × Item) → List (String × Toml)
  | [] => []
  | (key, item) :: rest => (key, item.finish) :: finishAll rest

end

/-- Changes what stands under a key, or adds the key at the end. -/
def alter (key : String) (f : Option Item → Except Fault Item) : Items → Except Fault Items
  | [] => (f none).map fun item => [(key, item)]
  | (k, item) :: rest =>
    if k = key then (f (some item)).map fun item => (k, item) :: rest
    else (alter key f rest).map fun rest => (k, item) :: rest

/-- Gives a dotted key a value. Only tables made by dotted keys are passed through. -/
def assign (key : String) (v : Toml) : (parents : List String) → Items → Except Fault Items
  | [], items =>
    alter key (fun found =>
      match found with
      | none => .ok (.value v)
      | some _ => .error (.duplicate key)) items
  | parent :: parents, items =>
    alter parent (fun found =>
      match found with
      | none => (assign key v parents []).map (.table .dotted)
      | some (.table .dotted entries) => (assign key v parents entries).map (.table .dotted)
      | some _ => .error (.duplicate parent)) items

/-- Applies `f` to the table that a header names, in the last table of every list on the way. -/
def within (f : Items → Except Fault Items) : List String → Items → Except Fault Items
  | [], items => f items
  | parent :: parents, items =>
    alter parent (fun found =>
      match found with
      | none => (within f parents []).map (.table .passed)
      | some (.table how entries) => (within f parents entries).map (.table how)
      | some (.tables earlier last) => (within f parents last).map (.tables earlier)
      | some (.value _) => .error (.duplicate parent)) items

/-- Opens the table that a header names. -/
def openTable (path : KeyPath) : Items → Except Fault Items :=
  within (alter path.key fun found =>
    match found with
    | none => .ok (.table .opened [])
    | some (.table .passed entries) => .ok (.table .opened entries)
    | some _ => .error (.duplicate path.key)) path.parents

/-- Starts the next table of the list that a doubled header names. -/
def openList (path : KeyPath) : Items → Except Fault Items :=
  within (alter path.key fun found =>
    match found with
    | none => .ok (.tables [] [])
    | some (.tables earlier last) => .ok (.tables (earlier ++ [.table (finishAll last)]) [])
    | some _ => .error (.duplicate path.key)) path.parents

end MarkupRules.Toml
