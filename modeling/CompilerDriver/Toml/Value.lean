/-! Values of the TOML language. Tables remember how they came to be, since that decides what may
still be added to them. -/
namespace CompilerDriver.Toml

inductive TableKind where
  /-- Opened by a header of its own. -/
  | header
  /-- On the way to the header of another table. -/
  | implied
  /-- On the way to the last part of a dotted key. -/
  | dotted
  /-- Written in braces, and complete. -/
  | braced
  deriving DecidableEq, Repr

inductive Value where
  | string (text : String)
  | integer (i : Int)
  | float (text : String)
  | boolean (b : Bool)
  | datetime (text : String)
  | array (items : List Value)
  | table (kind : TableKind) (entries : List (String × Value))
  /-- An array whose tables have headers of their own. -/
  | rows (tables : List (List (String × Value)))
  deriving Repr

abbrev Entries := List (String × Value)

namespace Entries

/-- Puts a value under a key, in the place of the value there was. -/
def set (entries : Entries) (key : String) (v : Value) : Entries :=
  if (entries.lookup key).isSome then
    entries.map fun e => if e.1 = key then (key, v) else e
  else entries ++ [(key, v)]

/-- Adds a new key. -/
def add? (entries : Entries) (key : String) (v : Value) : Option Entries :=
  if (entries.lookup key).isSome then none else some (entries ++ [(key, v)])

/-- Changes the last row of a table array. -/
def changeLast? (change : Entries → Option Entries) : List Entries → Option (List Entries)
  | [] => none
  | [row] => (change row).map ([·])
  | row :: rest => (changeLast? change rest).map (row :: ·)

/-- Adds the value of a dotted key. The tables on the way are made as needed; one that was there
must have been made by a dotted key too, if the value goes into it directly. -/
def addDotted? : (path : List String) → String → Value → Entries → Option Entries
  | [], key, v, entries => entries.add? key v
  | k :: path, key, v, entries =>
    match entries.lookup k with
    | none => do
      let inner ← addDotted? path key v []
      return entries.set k (.table .dotted inner)
    | some (.table .dotted inner) => do
      let inner ← addDotted? path key v inner
      return entries.set k (.table .dotted inner)
    | some (.table .implied inner) =>
      if path = [] then none
      else do
        let inner ← addDotted? path key v inner
        return entries.set k (.table .implied inner)
    | some (.rows rows) =>
      if path = [] then none
      else do
        let rows ← changeLast? (addDotted? path key v) rows
        return entries.set k (.rows rows)
    | some _ => none

/-- Changes the table that a header's path leads to, through the last rows of table arrays. What is
missing is implied. -/
def changeAt? (change : Entries → Option Entries) : List String → Entries → Option Entries
  | [], entries => change entries
  | k :: path, entries =>
    match (entries.lookup k).getD (.table .implied []) with
    | .table .braced _ => none
    | .table kind inner => do
      let inner ← changeAt? change path inner
      return entries.set k (.table kind inner)
    | .rows rows => do
      let rows ← changeLast? (changeAt? change path) rows
      return entries.set k (.rows rows)
    | _ => none

/-- Opens the table of a header. It may be there already if it was only implied. -/
def openTable? (parents : List String) (key : String) (entries : Entries) : Option Entries :=
  entries.changeAt? (fun parent =>
    match (parent.lookup key).getD (.table .implied []) with
    | .table .implied inner => some (parent.set key (.table .header inner))
    | _ => none) parents

/-- Adds an empty row to the table array of a header. -/
def openRow? (parents : List String) (key : String) (entries : Entries) : Option Entries :=
  entries.changeAt? (fun parent =>
    match (parent.lookup key).getD (.rows []) with
    | .rows rows => some (parent.set key (.rows (rows ++ [[]])))
    | _ => none) parents

end Entries

end CompilerDriver.Toml
