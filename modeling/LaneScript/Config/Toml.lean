/-!
# Tables of a TOML file

A TOML file is a table of tables.  A key may be dotted, which enters or creates a table, and a
header opens a table for the lines below it: the table of its path, or one more table of an array of
tables.  No key is set twice, and a table that has been written in one way is not continued in
another; `Entries.assign`, `Entries.openTable` and `Entries.addTable` give nothing in these cases.

Only what a configuration can hold is kept of a value: truth values, integers, strings, and arrays
and tables.  That a float or a date stands somewhere is kept, but not which.
-/

namespace LaneScript.Config

/-- How a table came to be. -/
inductive TableOrigin where
  /-- Written in braces, and closed with them. -/
  | inline
  /-- Opened by a header of its own. -/
  | header
  /-- Implied by the header of a table in it. -/
  | implied
  /-- Entered by a dotted key. -/
  | dotted
  deriving DecidableEq, Repr

/-- A value of a TOML file. -/
inductive Toml where
  | bool (value : Bool)
  | int (value : Int)
  | str (content : String)
  /-- A float, a date or a time. -/
  | other
  | array (items : List Toml)
  | table (origin : TableOrigin) (entries : List (String × Toml))
  /-- An array of tables, each with a header of its own. -/
  | tables (members : List (List (String × Toml)))

/-- The entries of a table. -/
abbrev Entries := List (String × Toml)

/-- Changes the last item of a list, if there is one and the change is possible. -/
def changeLast? {α : Type} (change : α → Option α) : List α → Option (List α)
  | [] => none
  | [item] => (change item).map ([·])
  | item :: others => (changeLast? change others).map (item :: ·)

namespace Toml

/-- A table that only dotted keys have written. -/
def isDotted : Toml → Bool
  | .table .dotted _ => true
  | _ => false

/-- Changes the entries of a table, where an array of tables stands for its last one.  A table in
braces is closed. -/
def changeEntries? (change : Entries → Option Entries) : Toml → Option Toml
  | .table .inline _ => none
  | .table origin entries => (change entries).map (.table origin)
  | .tables members => (changeLast? change members).map .tables
  | _ => none

end Toml

namespace Entries

/-- Changes the value of a key that is there. -/
def replace (key : String) (value : Toml) : Entries → Entries
  | [] => []
  | (k, v) :: others =>
    if k == key then (k, value) :: others else (k, v) :: replace key value others

/-- Sets the value of a key, behind the keys of tables that a dotted key enters. -/
def assign : List String → String → Toml → Entries → Option Entries
  | [], key, value, entries =>
    if (entries.lookup key).isSome then none else some (entries ++ [(key, value)])
  | outer :: inner, key, value, entries =>
    match entries.lookup outer with
    | none =>
      (assign inner key value []).map fun found => entries ++ [(outer, .table .dotted found)]
    | some (.table .header _) => none
    | some found =>
      if inner.isEmpty && !found.isDotted then none
      else
        (found.changeEntries? (assign inner key value)).map fun found =>
          replace outer found entries

/-- Changes the table that the path of a header leads to; the tables on the way are implied. -/
def within (change : Entries → Option Entries) : List String → Entries → Option Entries
  | [], entries => change entries
  | name :: path, entries =>
    match entries.lookup name with
    | none => (within change path []).map fun found => entries ++ [(name, .table .implied found)]
    | some found =>
      (found.changeEntries? (within change path)).map fun found => replace name found entries

/-- Opens the table of a header. -/
def openTable (name : String) (entries : Entries) : Option Entries :=
  match entries.lookup name with
  | none => some (entries ++ [(name, .table .header [])])
  | some (.table .implied found) => some (replace name (.table .header found) entries)
  | some _ => none

/-- Opens one more table of an array of tables. -/
def addTable (name : String) (entries : Entries) : Option Entries :=
  match entries.lookup name with
  | none => some (entries ++ [(name, .tables [[]])])
  | some (.tables members) => some (replace name (.tables (members ++ [[]])) entries)
  | some _ => none

end Entries
end LaneScript.Config
