import CompilerDriver.Shell.State

/-! Finding and starting the programs that a shell's commands name. -/
namespace CompilerDriver.Shell

open CompilerDriver.Machine

namespace Search

/-- Where programs are looked for when no search path is set. -/
def standardPath : Bytes :=
  bytesOf "/usr/local/sbin:/usr/local/bin:/usr/sbin:/usr/bin:/sbin:/bin"

/-- The program that reads texts that name no interpreter. -/
def interpreter : Bytes := bytesOf "/bin/sh"

/-- The search path of a shell; none if it has been forgotten. -/
def searchPath? (s : State) (standard : Bool) : Option Bytes :=
  if standard then some standardPath else s.value? (bytesOf "PATH")

/-- The paths that a name may stand for. An empty directory is the working directory. -/
def candidates (searchPath? : Option Bytes) (name : Bytes) : List Path :=
  if Path.slash ∈ name then [⟨name⟩]
  else
    let dirs := searchPath?.elim [] (·.splitOn 0x3A)
    dirs.map fun dir => if dir = [] then ⟨name⟩ else ⟨dir ++ Path.slash :: name⟩

/-- The status of a command that could not be started. -/
def failureStatus (error : SystemError) : Nat :=
  if [.notFound, .notADirectory, .nameTooLong, .filesystemLoop].contains error then 127 else 126

/-- Starts the program at a path. One that the system does not know is read by the shell. -/
def attempt (start : Starter) (p : Process) (path : Path) (w : World) :
    Except SystemError (Ending × World) :=
  match start p path w with
  | .error error =>
    if error = .badExecutable then
      start { p with words := interpreter :: path.bytes :: p.args } ⟨interpreter⟩ w
    else .error error
  | started => started

/-- The status of a command that is nowhere in the search path. -/
def missingStatus : Nat := 127

/-- Tries paths in turn. The last error that is more than a missing file is reported. -/
def firstStarted (start : Starter) (p : Process) (w : World) :
    List Path → SystemError → Except SystemError (Ending × World)
  | [], error => .error error
  | path :: rest, error =>
    match attempt start p path w with
    | .ok started => .ok started
    | .error found =>
      let isMissing := found = .notFound ∨ found = .notADirectory
      firstStarted start p w rest (if isMissing then error else found)

/-- Why no path is that of an executable file. -/
def missing (fs : FileSystem) (paths : List Path) : SystemError :=
  if paths.any fs.contains then .permissionDenied else .notFound

/-- Starts the program that the first word of a process names, or finds why that is not possible
and the status of the command. -/
def launch (start : Starter) (searchPath? : Option Bytes) (p : Process) (w : World) :
    Except (SystemError × Nat) (Ending × World) :=
  let paths := candidates searchPath? p.name
  let started (paths : List Path) : Except (SystemError × Nat) (Ending × World) :=
    (firstStarted start p w paths .notFound).mapError fun error => (error, failureStatus error)
  if Path.slash ∈ p.name then started paths
  else match paths.dropWhile fun path => !w.fs.isExecutable path with
    | [] => .error (missing w.fs paths, missingStatus)
    | paths => started paths

/-- The process that a command of the shell becomes. -/
def processOf (s : State) (number : Nat) (words : List Bytes) : Process :=
  { number := number
    parent := if number = s.process.number then s.process.parent else s.process.number
    words := words
    env := s.environment
    streams := s.process.streams
    ignored := (s.traps.filter (·.2 = [])).map (·.1) }

/-- Shows that a program was killed, unless that is how programs are usually stopped. -/
def showEnding (ending : Ending) : Run Unit := do
  match ending with
  | .killed signal =>
    if !isQuiet signal then discard (write 2 (bytesOf (signalText signal ++ "\n")))
  | .exited _ => return

/-- Runs a program as a process of its own. -/
def run (start : Starter) (standard : Bool) (words : List Bytes) : Run Unit := do
  let s ← get
  let (number, world) := s.world.enter
  match launch start (searchPath? s standard) (processOf s number words) world with
  | .ok (ending, world) => do
    let world := world.leave number s.world.fs.workingDir
    set { s with world := world, status := ending.status }
    showEnding ending
  | .error (error, status) => do
    complain (Complaint.cannotStart (words.headD []) error)
    setStatus status

/-- Runs a program in the place of the shell. -/
def replace (start : Starter) (words : List Bytes) : Run Unit := do
  let s ← get
  match launch start (searchPath? s false) (processOf s s.process.number words) s.world with
  | .ok (ending, world) => do
    set { s with world := world }
    throw (.ended ending)
  | .error (error, status) => do
    complain (Complaint.cannotStart (words.headD []) error)
    setStatus status
    throw .exited

end Search

end CompilerDriver.Shell
