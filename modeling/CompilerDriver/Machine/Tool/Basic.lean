import CompilerDriver.Shell.Complaint
import CompilerDriver.FileSystem

/-! Small programs, and the options in their words. -/
namespace CompilerDriver.Machine

open CompilerDriver.Shell (bytesOf charsOf bytesOfChars)

/-- What a program is asked: the name it is called by, its operands, and the input if it reads
any. -/
structure Request where
  name : Bytes
  args : List Bytes
  input : Bytes

/-- What a program leaves behind. Texts are written in order, each to a descriptor. -/
structure Outcome where
  fs : FileSystem
  status : Nat := 0
  writes : List (Nat × Bytes) := []

/-- A program. The text that it could read is used up if it reads at all. -/
structure Tool where
  readsInput : Bool := false
  run : Request → FileSystem → Outcome

namespace Outcome

def say (o : Outcome) (text : Bytes) : Outcome := { o with writes := o.writes ++ [(1, text)] }

/-- A complaint, after which the program goes on. -/
def complain (o : Outcome) (r : Request) (status : Nat) (text : Bytes) : Outcome :=
  { o with
    status := status
    writes := o.writes ++ [(2, r.name ++ bytesOf ": " ++ text ++ bytesOf "\n")] }

end Outcome

namespace Request

/-- Words that make no sense. -/
def refused (r : Request) (status : Nat) (text : Bytes) (fs : FileSystem) : Outcome :=
  let o := Outcome.complain { fs := fs } r status text
  { o with
    writes := o.writes
      ++ [(2, bytesOf "Try '" ++ r.name ++ bytesOf " --help' for more information.\n")] }

end Request

namespace Tool

def quoted (path : Bytes) : Bytes := bytesOf "'" ++ path ++ bytesOf "'"

/-- A path that is quoted only where it could be misread. -/
def shownPath (path : Bytes) : Bytes :=
  let isSafe (c : Char) : Bool := c.isAlphanum || "/._-+,@%".toList.contains c
  if path ≠ [] ∧ (charsOf path).all isSafe then path
  else if path.contains 0x27 && !path.contains 0x22 then bytesOf "\"" ++ path ++ bytesOf "\""
  else quoted path

/-- What is wrong with a path. -/
def problem (before : String) (path : Bytes) (error : SystemError) : Bytes :=
  bytesOf before ++ quoted path ++ bytesOf (": " ++ error.description)

/-! ### Options -/

/-- The letters a program knows. Some need a value. Long names stand for letters. -/
structure Options where
  letters : String
  valued : String := ""
  long : List (String × Char) := []

structure Given where
  options : List (Char × Bytes) := []
  operands : List Bytes := []

namespace Given

def has (g : Given) (letters : String) : Bool := g.options.any fun o => letters.toList.contains o.1

def value? (g : Given) (letter : Char) : Option Bytes := g.options.reverse.lookup letter

end Given

/-- The options in one word. The last of them may need the next word. -/
def optionsOf (o : Options) :
    List Char → List Bytes → Except Bytes (List (Char × Bytes) × List Bytes)
  | [], rest => .ok ([], rest)
  | c :: more, rest =>
    if o.valued.toList.contains c then
      match more, rest with
      | [], value :: rest => .ok ([(c, value)], rest)
      | [], [] => .error (bytesOf "option requires an argument -- " ++ quoted (bytesOfChars [c]))
      | more, rest => .ok ([(c, bytesOfChars more)], rest)
    else if o.letters.toList.contains c then
      (optionsOf o more rest).map fun (options, rest) => ((c, []) :: options, rest)
    else .error (bytesOf "invalid option -- " ++ quoted (bytesOfChars [c]))

/-- Sorts words into options and operands, which may be mixed. -/
def given (o : Options) : Nat → List Bytes → Except Bytes Given
  | 0, _ => .ok {}
  | _, [] => .ok {}
  | fuel + 1, word :: rest =>
    match charsOf word with
    | ['-', '-'] => .ok ⟨[], rest⟩
    | '-' :: '-' :: name =>
      match o.long.lookup (String.ofList (name.takeWhile (· ≠ '='))) with
      | none => .error (bytesOf "unrecognized option " ++ quoted word)
      | some letter => do
        let g ← given o fuel rest
        let value := bytesOfChars ((name.dropWhile (· ≠ '=')).drop 1)
        return { g with options := (letter, value) :: g.options }
    | '-' :: c :: letters => do
      let (options, rest) ← optionsOf o (c :: letters) rest
      let g ← given o fuel rest
      return { g with options := options ++ g.options }
    | _ => do
      let g ← given o fuel rest
      return { g with operands := word :: g.operands }

/-- A program that needs its options to make sense. -/
def withOptions (o : Options) (refusal : Nat) (readsInput : Bool)
    (run : Request → Given → FileSystem → Outcome) : Tool where
  readsInput := readsInput
  run r fs :=
    match given o (r.args.length + 1) r.args with
    | .ok g => run r g fs
    | .error text => r.refused refusal text fs

/-- A change of the file system with what is said about it, or what is wrong. -/
abbrev Change := Except Bytes (FileSystem × Bytes)

/-- Does something to each operand. What cannot be done is passed over, and the status tells. -/
def forEach (r : Request) (operands : List Bytes) (change : FileSystem → Path → Change)
    (fs : FileSystem) : Outcome :=
  operands.foldl (fun done operand =>
    match change done.fs ⟨operand⟩ with
    | .ok (fs, said) => { done with fs := fs }.say said
    | .error text => done.complain r 1 text) { fs := fs }

/-- What is said about a change, if that is asked for. -/
def remark (g : Given) (text : Bytes) : Bytes :=
  if g.has "v" then text ++ bytesOf "\n" else []

def missingOperand : Bytes := bytesOf "missing operand"

end Tool

end CompilerDriver.Machine
