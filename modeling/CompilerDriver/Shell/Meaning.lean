import CompilerDriver.Shell.Builtin
import CompilerDriver.Shell.Search

/-! What the name of a command stands for, and how the shell shows it. -/
namespace CompilerDriver.Shell

inductive Meaning where
  | keyword
  | function
  | builtin (special : Bool)
  | program (path : Path)
  deriving DecidableEq, Repr

namespace Meaning

def isSpecial (name : Bytes) : Bool := Reader.specialNames.any (bytesOf · = name)

/-- The commands of the shell itself. -/
def isBuiltin (name : Bytes) : Bool :=
  isSpecial name || (Builtin.ofName? (Utf8.lossy name)).isSome
    || name = bytesOf "command" || name = bytesOf "type"

/-- What a name stands for, if anything. A path stands for whatever is there; any other name for
an executable file only. -/
def find? (s : State) (standard : Bool) (name : Bytes) : Option Meaning :=
  let paths := Search.candidates (Search.searchPath? s standard) name
  if Reader.keywords.any (bytesOf · = name) then some .keyword
  else if Path.slash ∈ name then (paths.find? s.world.fs.contains).map .program
  else if s.functions.any (·.1 = name) then some .function
  else if isBuiltin name then some (.builtin (isSpecial name))
  else (paths.find? s.world.fs.isExecutable).map .program

/-- A word that could be written instead of the name. -/
def shown (name : Bytes) : Meaning → Bytes
  | program path => path.bytes
  | _ => name

def described (name : Bytes) : Meaning → Bytes
  | keyword => name ++ bytesOf " is a shell keyword"
  | function => name ++ bytesOf " is a shell function"
  | builtin special =>
    name ++ bytesOf (if special then " is a special shell builtin" else " is a shell builtin")
  | program path => name ++ bytesOf " is " ++ path.bytes

/-- Shows what a name stands for, in words or as a word. -/
def identify (inWords standard : Bool) (name : Bytes) : Run Unit := do
  match find? (← get) standard name with
  | some meaning =>
    Builtin.print ((if inWords then meaning.described name else meaning.shown name) ++ bytesOf "\n")
  | none => do
    if inWords then Builtin.print (name ++ bytesOf ": not found\n")
    setStatus 127

/-- Shows what several names stand for. -/
def identifyAll (names : List Bytes) : Run Unit := do
  let mut status := 0
  for name in names do
    identify true false name
    status := max status (← get).status
  setStatus status

/-- Shows what the first operand after some options stands for. -/
def identifyFirst (operands : List Bytes) : Run Unit := do
  let (options, names) ← Builtin.optionsOf "pvV" operands
  match names with
  | [] => setStatus 0
  | name :: _ => identify ('V' ∈ options) ('p' ∈ options) name

end Meaning

end CompilerDriver.Shell
