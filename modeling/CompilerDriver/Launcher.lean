import CompilerDriver.Machine.Standard
import CompilerDriver.Runner
import CompilerDriver.Shell.Evaluation

/-! Launching commands as processes. A program named with a separator stands where its path says;
any other is looked up in the search path. -/
namespace CompilerDriver.Launcher

open Machine

/-- Bytes in one word of a command, with the zero byte that ends it. -/
def wordLimit : Nat := 131072

/-- The program that the file at a path leads to, and the words that it is started with. A text is
started as an operand of its interpreter, which may be a text in turn. -/
def load (fs : FileSystem) : Nat → Path → List Bytes → Except SystemError (String × List Bytes)
  | 0, _, _ => .error .filesystemLoop
  | depth + 1, path, words => do
    match ← fs.find path with
    | (_, .file content true) =>
      match Image.ofContent? programNames content with
      | none => .error .badExecutable
      | some (.program name) => .ok (name, words)
      | some (.interpreted interpreter operand) =>
        load fs depth interpreter
          (interpreter.bytes :: operand.toList ++ path.bytes :: words.drop 1)
    | _ => .error .permissionDenied

/-- Texts that may be interpreters of one another. -/
def interpreterLimit : Nat := 6

/-- Whether the search for a program goes on after an error. -/
def isPassedOver (error : SystemError) : Bool :=
  error == .notFound || error == .notADirectory || error == .permissionDenied

/-- Starts the first of some paths that can be started. A file that was there but could not be
started is reported in favour of files that were not there. -/
def startFirst (start : Path → Except SystemError (Ending × World)) :
    List Path → (denied : Bool) → SystemError → Except SystemError (Ending × World)
  | [], denied, last => .error (if denied then .permissionDenied else last)
  | path :: rest, denied, _ =>
    match start path with
    | .ok started => .ok started
    | .error error =>
      if isPassedOver error then
        startFirst start rest (denied || error == .permissionDenied) error
      else .error error

/-- Where programs are looked for when the environment has no search path. -/
def standardPath : List Path := [.ofString "/bin", .ofString "/usr/bin"]

/-- The path of a program in a directory of the search path. -/
def candidate (program dir : Path) : Path :=
  if dir.isEmpty then program else ⟨dir.bytes ++ Path.slash :: program.bytes⟩

/-- Starts the program that a name stands for. -/
def startNamed (start : Path → Except SystemError (Ending × World)) (env : Environment)
    (program : Path) : Except SystemError (Ending × World) :=
  if program.isEmpty then .error .notFound
  else if Path.slash ∈ program.bytes then start program
  else if FileSystem.nameLimit < program.bytes.length then .error .nameTooLong
  else
    let directories := env.searchPath?.getD standardPath
    startFirst start (directories.map (candidate program)) false .notFound

/-- Runs a program of the machine on its operands and its input. -/
def runTool (tool : Tool) (p : Process) (w : World) : Ending × World :=
  let input := if tool.readsInput then p.streams.lookup 0 else none
  let text := (input.bind w.remaining).getD []
  let w := input.elim w fun index => w.consume index text.length
  let outcome := tool.run { name := p.name, args := p.args, input := text } w.fs
  outcome.writes.foldl (fun (ending, w) (descriptor, text) =>
    if text = [] then (ending, w)
    else match p.write descriptor text w with
      | some w => (ending, w)
      | none => (if descriptor = 1 then .exited 1 else ending, w))
    (Ending.exited outcome.status, { w with fs := outcome.fs })

/-- Runs the program that follows changes of the environment. -/
def runChanged (start : Starter) (p : Process) (w : World) : List Bytes → Environment →
    Ending × World
  | [], _ => (.exited 0, w)
  | word :: rest, env =>
    let (name, value) := (word.takeWhile (· ≠ 0x3D), word.dropWhile (· ≠ 0x3D))
    let with_ (name : Bytes) (value? : Option Bytes) : Environment :=
      ⟨fun asked => if Utf8.encode asked = name then value? else env.get? asked⟩
    if word = Utf8.encode "-i" ∨ word = Utf8.encode "-" then runChanged start p w rest .none
    else if word = Utf8.encode "--" then runChanged start p w rest env
    else if word = Utf8.encode "-u" then
      match rest with
      | name :: rest => runChanged start p w rest (with_ name none)
      | [] => (.exited 125, w)
    else if word.head? = some 0x2D then
      let text := p.name ++ Shell.bytesOf ": invalid option -- " ++ Tool.quoted (word.drop 1)
      (.exited 125, (p.write 2 (text ++ [0x0A]) w).getD w)
    else if value ≠ [] then runChanged start p w rest (with_ name (some (value.drop 1)))
    else
      let next := { p with words := word :: rest, env := env }
      match startNamed (Shell.Search.attempt start next · w) env ⟨word⟩ with
      | .ok (ending, w) => (ending, w)
      | .error error =>
        let text := p.name ++ Shell.bytesOf ": " ++ Tool.problem "" word error ++ [0x0A]
        (.exited (Shell.Search.failureStatus error), (p.write 2 text w).getD w)

/-- Starts a program in the place of a process. `start` does so for the programs that it starts in
turn. -/
def startWith (start : Starter) : Starter := fun p path w => do
  let (name, words) ← load w.fs interpreterLimit path p.words
  if words.any fun word => wordLimit ≤ word.length then .error .argumentListTooLong
  else
    let p := { p with words := words }
    if shellNames.contains name then return Shell.run start p w
    else if name = environmentName then return runChanged start p w p.args p.env
    else match Tool.all.lookup name with
      | some tool => return runTool tool p w
      | none => .error .badExecutable

/-- A machine that cannot start more programs. -/
def exhausted : Starter := fun _ _ _ => .error (.number 11)

/-- Starts programs that start each other within a depth. -/
def starter : Nat → Starter
  | 0 => exhausted
  | depth + 1 => startWith (starter depth)

/-- Programs that may start one another. -/
def depthLimit : Nat := 30

/-- Arguments are passed on as texts that a zero byte would end. -/
def hasZeroByte (c : Command) : Bool := (c.program.bytes :: c.args).any (·.contains 0)

/-- A process with nothing to read, whose output and error output are kept. -/
def processOf (env : Environment) (c : Command) : Process where
  number := 2
  parent := 1
  words := c.program.bytes :: c.args
  env := env
  streams := [(0, 0), (1, 1), (2, 2)]

def worldOf (fs : FileSystem) : World where
  fs := fs
  streams := #[.supplied [], .gathered [], .gathered []]
  running := [2]
  nextNumber := 3

def reply (env : Environment) (c : Command) (fs : FileSystem) : Reply × FileSystem :=
  if hasZeroByte c then ({ status := .error (.zeroByte "nul byte found in provided data") }, fs)
  else
    let start (path : Path) := starter depthLimit (processOf env c) path (worldOf fs)
    match startNamed start env c.program with
    | .error error => ({ status := .error error }, fs)
    | .ok (ending, w) =>
      ({ status := .ok ending.isSuccess, printed := w.gathered 1, complaints := w.gathered 2 },
        { w.fs with workingDir := fs.workingDir })

/-- The runner that launches every command. It does not depend on earlier commands. -/
def runner (env : Environment) : Runner := ⟨fun _ c fs => reply env c fs⟩

end CompilerDriver.Launcher
