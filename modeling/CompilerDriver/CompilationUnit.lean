import CompilerDriver.Format
import CompilerDriver.Workspace

/-! One artifact on its way through the stages of a pipeline. The cursor remembers the input and
the output of the latest action; the history keeps every artifact ever assigned. -/
namespace CompilerDriver

/-- An action's place in the list of its stage. -/
structure ActionId where
  stage : Stage
  index : Nat
  deriving DecidableEq, Repr

structure CompilationUnit where
  source : Option Path
  name : String
  previous : Option Path := none
  current : Option Path := none
  history : List Path := []
  actions : List ActionId := []
  deriving DecidableEq, Repr

namespace CompilationUnit

/-- The unit name of a path: its stem as text. -/
def nameOf (p : Path) : String := Utf8.lossy (p.fileStem.getD [])

def ofSource (source : Path) : CompilationUnit := { source := some source, name := nameOf source }

/-- A unit without a source, which carries the linked artifact and is named after the output. -/
def combined (output : Path) : CompilationUnit := { source := none, name := nameOf output }

def isCombined (u : CompilationUnit) : Bool := u.source.isNone

/-- What the latest action reads. -/
def currentInput (u : CompilationUnit) : Except PipelineError Path :=
  match u.previous.or u.source with
  | some p => .ok p
  | none => .error (.noInputAssigned u.name)

/-- What the latest action writes. -/
def currentOutput (u : CompilationUnit) : Except PipelineError Path :=
  match u.current with
  | some p => .ok p
  | none => .error (.noOutputAssigned u.name)

def currentInputFormat (u : CompilationUnit) : Except PipelineError (Option Format) :=
  u.currentInput.map Format.ofPath?

/-- What the next action will read, once it has been given an output. -/
def nextInput (u : CompilationUnit) : Option Path := u.current.or u.source

def nextFormat (u : CompilationUnit) : Option Format := u.nextInput.bind Format.ofPath?

def outputFormat (u : CompilationUnit) : Option Format := u.current.bind Format.ofPath?

/-- Moves the cursor on to a new output. -/
def append (u : CompilationUnit) (p : Path) : CompilationUnit :=
  { u with history := u.history ++ [p], previous := u.current, current := some p }

/-- Moves the cursor on to a new temporary named after the unit. -/
def appendTemporary (u : CompilationUnit) (w : Workspace) (extension : String) :
    Except PipelineError CompilationUnit × Workspace :=
  match w.allocate u.name extension with
  | (.ok p, w') => (.ok (u.append p), w')
  | (.error error, w') => (.error error, w')

def recordAction (u : CompilationUnit) (id : ActionId) : CompilationUnit :=
  { u with actions := u.actions ++ [id] }

@[simp] theorem currentOutput_append (u : CompilationUnit) (p : Path) :
    (u.append p).currentOutput = .ok p := rfl

/-- An appended output turns what was to be read next into the current input. -/
theorem currentInput_append (u : CompilationUnit) (p : Path) :
    (u.append p).currentInput =
      match u.nextInput with
      | some q => .ok q
      | none => .error (.noInputAssigned u.name) := rfl

@[simp] theorem nextInput_append (u : CompilationUnit) (p : Path) :
    (u.append p).nextInput = some p := rfl

@[simp] theorem history_append (u : CompilationUnit) (p : Path) :
    (u.append p).history = u.history ++ [p] := rfl

end CompilationUnit

end CompilerDriver
