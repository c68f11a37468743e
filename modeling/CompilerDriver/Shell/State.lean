import CompilerDriver.Machine.World
import CompilerDriver.Shell.Complaint
import CompilerDriver.Shell.Program

/-! What a running shell knows, and the ways in which a command can end otherwise than by going
on with the next. -/
namespace CompilerDriver.Shell

open CompilerDriver.Machine

structure Binding where
  /-- Absent for a name that only has marks. -/
  value : Option Bytes := none
  isExported : Bool := false
  isFixed : Bool := false
  deriving DecidableEq, Repr

structure State where
  process : Process
  world : World
  /-- The number of the shell that subshells were split off from. -/
  number : Nat
  name : Bytes
  args : List Bytes
  bindings : List (Bytes × Binding) := []
  /-- Bindings to be restored, for each scope that is open. -/
  scopes : List (List (Bytes × Option Binding)) := []
  functions : List (Bytes × Command) := []
  status : Nat := 0
  /-- The status of the last command whose output was inserted. -/
  insertedStatus : Nat := 0
  /-- The letters of the options that are on. -/
  options : List Char := []
  /-- What is done on a signal, or at the end, which has number zero. -/
  traps : List (Nat × Bytes) := []
  /-- The last command that was left running, and the statuses of all of them. -/
  lastStarted : Option Nat := none
  finished : List (Nat × Nat) := []
  /-- Loops around the present command. -/
  loops : Nat := 0
  /-- Function calls around the present command. -/
  calls : Nat := 0
  /-- The place inside an operand that the reading of options has come to. -/
  optionOffset : Nat := 0
  documents : Array Word := #[]
  /-- The line of the present command, and the command that a complaint names. -/
  line : Nat := 0
  command : Bytes := []
  /-- The marks that new files do not get. -/
  mask : Nat := 18

inductive Jump where
  | leave (loops : Nat)
  | again (loops : Nat)
  | returned
  | exited
  /-- An error that ends the shell unless an ordinary command has made it. -/
  | failed
  /-- The process has ended, killed or as another program that has taken its place. -/
  | ended (ending : Ending)
  | exhausted
  deriving DecidableEq, Repr

abbrev Run := ExceptT Jump (StateM State)

namespace State

def has (s : State) (option : Char) : Bool := s.options.contains option

def binding (s : State) (name : Bytes) : Binding :=
  match s.bindings.lookup name with
  | some b => b
  | none =>
    match s.process.env.get? (Utf8.lossy name) with
    | some value => ⟨some value, true, false⟩
    | none => {}

def value? (s : State) (name : Bytes) : Option Bytes := (s.binding name).value

def setBinding (s : State) (name : Bytes) (b : Binding) : State :=
  { s with bindings := (name, b) :: s.bindings.filter (·.1 ≠ name) }

/-- A variable with a new value, unless it is fixed. -/
def assign? (s : State) (name value : Bytes) : Option State :=
  let b := s.binding name
  if b.isFixed then none
  else
    let s := if name = bytesOf "OPTIND" then { s with optionOffset := 0 } else s
    some (s.setBinding name
      { b with value := some value, isExported := b.isExported || s.has 'a' })

/-- Remembers a binding in the innermost scope. -/
def remember (s : State) (name : Bytes) : State :=
  match s.scopes with
  | [] => s
  | scope :: outer =>
    if scope.any (·.1 = name) then s
    else { s with scopes := ((name, s.bindings.lookup name) :: scope) :: outer }

def openScope (s : State) : State := { s with scopes := [] :: s.scopes }

/-- Restores the bindings of the innermost scope. -/
def closeScope (s : State) : State :=
  match s.scopes with
  | [] => s
  | scope :: outer =>
    let restored := scope.foldl (fun bindings (name, before) =>
      let others := bindings.filter (·.1 ≠ name)
      match before with
      | some b => (name, b) :: others
      | none => others) s.bindings
    { s with bindings := restored, scopes := outer }

/-- The environment of the programs that the shell starts. -/
def environment (s : State) : Environment :=
  ⟨fun name =>
    let b := s.binding (Utf8.encode name)
    if b.isExported then b.value else none⟩

/-- The characters that separate fields. -/
def separators (s : State) : Bytes := (s.value? (bytesOf "IFS")).getD (bytesOf " \t\n")

def mapWorld (s : State) (f : World → World) : State := { s with world := f s.world }

def setStreams (s : State) (streams : List (Nat × Nat)) : State :=
  { s with process := { s.process with streams := streams } }

end State

/-- Options of the shell with their names. -/
def optionNames : List (Char × String) :=
  [('e', "errexit"), ('f', "noglob"), ('I', "ignoreeof"), ('i', "interactive"), ('m', "monitor"),
   ('n', "noexec"), ('s', "stdin"), ('x', "xtrace"), ('v', "verbose"), ('V', "vi"),
   ('E', "emacs"), ('C', "noclobber"), ('a', "allexport"), ('b', "notify"), ('u', "nounset")]

/-- The letters of the options in the order in which those that are on are shown. -/
def optionLetters : List Char := (optionNames.map (·.1)).reverse

def setStatus (status : Nat) : Run Unit := modify ({ · with status := status })

/-- Writes to a descriptor, and says whether that was possible. -/
def write (descriptor : Nat) (text : Bytes) : Run Bool := do
  let s ← get
  if text = [] then return true
  match s.process.write descriptor text s.world with
  | some world => do
    set { s with world := world }
    return true
  | none => return false

/-- Shows a complaint on some line of the program that is run. -/
def complainAt (line : Nat) (text : Bytes) : Run Unit := do
  let s ← get
  let place := s.name ++ bytesOf (": " ++ toString line ++ ": ")
  let command := if s.command = [] then [] else s.command ++ bytesOf ": "
  discard (write 2 (place ++ command ++ text ++ bytesOf "\n"))

def complain (text : Bytes) : Run Unit := do complainAt (← get).line text

/-- The shell error. -/
def fail {α : Type} (text : Bytes) : Run α := do
  complain text
  setStatus 2
  throw .failed

/-- A step that may fail as a shell error does. -/
def orFail {α : Type} (text : Bytes) (a : Option α) : Run α :=
  match a with
  | some a => return a
  | none => fail text

def assign (name value : Bytes) : Run Unit := do
  set (← orFail (Complaint.readOnly name) ((← get).assign? name value))

end CompilerDriver.Shell
