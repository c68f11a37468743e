import CompilerDriver.Toml.Scan
import CompilerDriver.Toml.Value

/-! TOML documents: nested values, and the lines that build the root table. -/
namespace CompilerDriver.Toml

open Scan

/-- A value that does not nest. -/
def scalarValue? (cs : List Char) : Option (Value × List Char) :=
  match cs with
  | [] => none
  | c :: _ =>
    if c == '"' || c == '\'' then
      (string? cs).map fun (text, rest) => (.string (String.ofList text), rest)
    else if c == 't' then (expect? "true".toList cs).map fun rest => (.boolean true, rest)
    else if c == 'f' then (expect? "false".toList cs).map fun rest => (.boolean false, rest)
    else match datetime? cs with
      | some (text, rest) => some (.datetime text, rest)
      | none =>
        match float? cs with
        | some (text, rest) => some (.float text, rest)
        | none => (integer? cs).map fun (i, rest) => (.integer i, rest)

mutual

/-- A value at some depth of nesting. -/
def value? : Nat → Nat → List Char → Option (Value × List Char)
  | 0, _, _ => none
  | fuel + 1, depth, cs =>
    match cs with
    | '[' :: rest =>
      if depth + 1 < depthLimit then
        (items? fuel (depth + 1) rest).map fun (items, rest) => (.array items, rest)
      else none
    | '\x7b' :: rest =>
      if depth + 1 < depthLimit then do
        match blanks rest with
        | '\x7d' :: rest => return (.table .braced [], rest)
        | rest =>
          let (entries, rest) ← pairs? fuel (depth + 1) [] rest
          return (.table .braced entries, rest)
      else none
    | _ => scalarValue? cs

/-- The rest of an array. A comma may follow the last item. -/
def items? : Nat → Nat → List Char → Option (List Value × List Char)
  | 0, _, _ => none
  | fuel + 1, depth, cs =>
    match filler cs.length cs with
    | ']' :: rest => some ([], rest)
    | cs => do
      let (item, rest) ← value? fuel depth cs
      match filler rest.length rest with
      | ',' :: rest =>
        let (items, rest) ← items? fuel depth rest
        return (item :: items, rest)
      | ']' :: rest => return ([item], rest)
      | _ => none

/-- The rest of a table in braces, to which at least one pair is added. -/
def pairs? : Nat → Nat → Entries → List Char → Option (Entries × List Char)
  | 0, _, _, _ => none
  | fuel + 1, depth, entries, cs => do
    let ((path, key), rest) ← key? cs
    let rest ← expect? ['='] rest
    let (v, rest) ← value? fuel depth (blanks rest)
    let entries ← entries.addDotted? path key v
    match blanks rest with
    | ',' :: rest => pairs? fuel depth entries rest
    | '\x7d' :: rest => return (entries, rest)
    | _ => none

end

/-- The table that is being filled. -/
structure Section where
  root : Entries := []
  /-- The path of the latest header. -/
  path : List String := []

/-- Reads the line at the front, if it is not empty. -/
def line? (s : Section) (cs : List Char) : Option (Section × List Char) :=
  match cs with
  | '[' :: '[' :: rest => do
    let ((parents, key), rest) ← key? rest
    let rest ← expect? [']', ']'] rest
    let rest ← lineEnd? rest
    let root ← s.root.openRow? parents key
    return (⟨root, parents ++ [key]⟩, rest)
  | '[' :: rest => do
    let ((parents, key), rest) ← key? rest
    let rest ← expect? [']'] rest
    let rest ← lineEnd? rest
    let root ← s.root.openTable? parents key
    return (⟨root, parents ++ [key]⟩, rest)
  | cs => do
    let ((path, key), rest) ← key? cs
    let rest ← expect? ['='] rest
    let (v, rest) ← value? (2 * rest.length + 2) 0 (blanks rest)
    let rest ← lineEnd? rest
    let root ← s.root.changeAt? (·.addDotted? path key v) s.path
    return ({ s with root := root }, rest)

def lines? : Nat → Section → List Char → Option Entries
  | 0, _, _ => none
  | fuel + 1, s, cs =>
    match blanks cs with
    | [] => some s.root
    | '#' :: rest => do
      let rest ← lineEnd? ('#' :: rest)
      lines? fuel s rest
    | rest =>
      match newline? rest with
      | some rest => lines? fuel s rest
      | none => do
        let (s, rest) ← line? s rest
        lines? fuel s rest

/-- The root table of a document. A byte order mark may stand before it. -/
def parse? (text : String) : Option Entries :=
  let cs :=
    match text.toList with
    | '\uFEFF' :: rest => rest
    | cs => cs
  lines? (cs.length + 1) {} cs

end CompilerDriver.Toml
