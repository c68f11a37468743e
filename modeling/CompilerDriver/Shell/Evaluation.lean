import CompilerDriver.Shell.Meaning

/-! Running shell programs. A command is carried out by an evaluator for the commands inside it,
so that the depth of nesting is all that a run needs as fuel; loops are bounded by their rounds.
The flag `tested` says that someone waits for the status of a command, so that a failure of it
does not end the shell. -/
namespace CompilerDriver.Shell

open CompilerDriver.Machine

namespace Evaluation

abbrev Evaluator := (tested : Bool) → Command → Run Unit

/-- Runs something, and mends the state after it, however it ends. -/
def restoring (mend : (before after : State) → State) (body : Run Unit) : Run Unit := do
  let before ← get
  ExceptT.mk fun s =>
    let (result, after) := body.run.run s
    (result, mend before after)

/-- Runs something, and puts the streams back after it. -/
def keepingStreams (body : Run Unit) : Run Unit :=
  restoring (fun before after => after.setStreams before.process.streams) body

def catching (caught : Jump) (body handler : Run Unit) : Run Unit :=
  tryCatch body fun jump => if jump = caught then handler else throw jump

/-- Runs the commands of a text. A text that goes wrong is an error once it has come so far. -/
def runText (eval : Evaluator) (tested : Bool) (text : Bytes) : Run Unit := do
  let script := Script.read (← get).documents text
  modify ({ · with documents := script.documents })
  if script.commands.isEmpty then setStatus 0
  for c in script.commands do eval tested c
  if let some error := script.error? then
    complainAt error.line (Complaint.syntaxError error.message)
    setStatus 2
    throw .failed

/-- How a shell ends after a run. Its action for the end is carried out first. -/
def concluded (eval : Evaluator) (result : Except Jump Unit) (s : State) : Ending × World :=
  let exited (status : Nat) : Ending := .exited (status % 256)
  match result with
  | .error (.ended ending) => (ending, s.world)
  | .error .exhausted => (.killed 9, s.world)
  | _ =>
    match s.traps.lookup 0 with
    | none => (exited s.status, s.world)
    | some action =>
      let last := { s with traps := s.traps.filter (·.1 ≠ 0) }
      let (result, after) := (runText eval false action).run.run last
      match result with
      | .error (.ended ending) => (ending, after.world)
      | .error .exhausted => (.killed 9, after.world)
      | .error .exited | .error .failed => (exited after.status, after.world)
      | _ => (exited s.status, after.world)

/-- Ends the process if a signal has come that nothing is set to be done on. -/
def endIfKilled : Run Unit := do
  let s ← get
  let isDeadly (sent : Nat × Nat) : Bool :=
    sent.1 == s.process.number
      && (isUnstoppable sent.2 || (s.traps.lookup sent.2).isNone && !isHarmless sent.2)
  match s.world.signals.find? isDeadly with
  | some (_, signal) => throw (.ended (.killed signal))
  | none => return

/-- Runs something in a copy of the shell, of which only the world is kept. -/
def isolated (eval : Evaluator) (isWaitedFor : Bool) (prepare : State → State)
    (body : Run Unit) : Run Ending := do
  let s ← get
  let (number, world) := s.world.enter
  let inner := prepare
    { s with
      world := world
      process := { s.process with number := number }
      traps := s.traps.filter (·.2 = []) }
  let (result, after) := body.run.run inner
  let (ending, world) := concluded eval result after
  set { s with world := world.leave number s.world.fs.workingDir }
  if isWaitedFor then Search.showEnding ending
  return ending

def setStream (descriptor index : Nat) (s : State) : State :=
  s.setStreams ((descriptor, index) :: s.process.streams.filter (·.1 ≠ descriptor))

def addStream (stream : Stream) : Run Nat := do
  let s ← get
  let (index, world) := s.world.addStream stream
  set { s with world := world }
  return index

/-- What a program writes. -/
def capture (eval : Evaluator) (program : Command) : Run Bytes := do
  let index ← addStream (.gathered [])
  let ending ← isolated eval true (setStream 1 index) (eval false program)
  endIfKilled
  modify ({ · with insertedStatus := ending.status })
  return (← get).world.gathered index

/-- The descriptor that a path of the system stands for. -/
def descriptorOf? (path : Bytes) : Option Nat :=
  [("/dev/stdin", 0), ("/dev/stdout", 1), ("/dev/stderr", 2), ("/dev/fd/0", 0), ("/dev/fd/1", 1),
   ("/dev/fd/2", 2)].findSome? fun (name, descriptor) =>
    if bytesOf name = path then some descriptor else none

/-- Whether a word names a descriptor, or stands for none. -/
def isDescriptorName (word : Bytes) : Bool :=
  match charsOf word with
  | [c] => c == '-' || c.isDigit
  | _ => false

/-- The stream that a redirection opens, or what is said if that is not possible. -/
def opened (s : State) (kind : RedirectKind) (target : Bytes) : Except Bytes (Nat × World) :=
  let path : Path := ⟨target⟩
  let known (descriptor : Nat) (complaint : Bytes) : Except Bytes (Nat × World) :=
    match s.process.streams.lookup descriptor with
    | some index => .ok (index, s.world)
    | none => .error complaint
  let written (mode : World.WriteMode) : Except Bytes (Nat × World) :=
    (s.world.openToWrite path mode).mapError (Complaint.cannotCreate target)
  match kind, descriptorOf? target with
  | .duplicate, _ =>
    match if target.length = 1 then count? target else none with
    | some descriptor => known descriptor (Complaint.badDescriptor target)
    | none => .error (Complaint.badDescriptor target)
  | .read, some descriptor => known descriptor (Complaint.cannotOpen target .notFound)
  | _, some descriptor => known descriptor (Complaint.cannotCreate target .notFound)
  | .read, none => (s.world.openToRead path).mapError (Complaint.cannotOpen target)
  | .write, none =>
    if s.has 'C' ∧ s.world.fs.isFile path then
      .error (Complaint.cannotCreate target .alreadyExists)
    else written .truncate
  | .overwrite, none => written .truncate
  | .append, none => written .append
  | .update, none => written .update

/-- Makes a redirection, and says whether that was possible. -/
def redirect (eval : Evaluator) (r : Redirect) : Run Bool := do
  match r with
  | .document descriptor index => do
    let text ← Expansion.text (capture eval) ((← get).documents.getD index [])
    let stream ← addStream (.supplied text)
    modify (setStream descriptor stream)
    return true
  | .file descriptor kind target => do
    let target ← Expansion.text (capture eval) target
    if kind = .duplicate ∧ !isDescriptorName target then
      let line := (← get).line + 1
      complainAt line Complaint.badDescriptorName
      setStatus 2
      throw .failed
    else if kind = .duplicate ∧ target = bytesOf "-" then
      modify fun s => s.setStreams (s.process.streams.filter (·.1 ≠ descriptor))
      return true
    else
      let s ← get
      match opened s kind target with
      | .ok (index, world) => do
        set (setStream descriptor index { s with world := world })
        return true
      | .error complaint => do
        complain complaint
        return false

/-- Makes redirections up to one that is not possible. -/
def redirectAll (eval : Evaluator) : List Redirect → Run Bool
  | [] => return true
  | r :: rest => do
    if ← redirect eval r then redirectAll eval rest else return false

/-- Runs something under redirections. -/
def redirected (eval : Evaluator) (rs : List Redirect) (body : Run Unit) : Run Unit :=
  keepingStreams do
    if ← redirectAll eval rs then body else setStatus 2

/-- What has become of one round of a loop. -/
inductive Round where
  | over
  | again
  | left
  deriving DecidableEq, Repr

/-- Runs a part of a loop. -/
def inLoop (body : Run Unit) : Run Round :=
  tryCatch (do body; return .over) fun
    | .leave n => if n ≤ 1 then return .left else throw (.leave (n - 1))
    | .again n => if n ≤ 1 then return .again else throw (.again (n - 1))
    | jump => throw jump

/-- The rounds of a loop. The status at the end is that of the body's last run. -/
def rounds (eval : Evaluator) (tested expected : Bool) (condition body : Command) :
    Nat → (last : Nat) → Run Unit
  | 0, _ => throw .exhausted
  | fuel + 1, last => do
    match ← inLoop (eval true condition) with
    | .left => setStatus last
    | .again => rounds eval tested expected condition body fuel last
    | .over =>
      if ((← get).status == 0) == expected then
        match ← inLoop (eval tested body) with
        | .left => return
        | _ => rounds eval tested expected condition body fuel (← get).status
      else setStatus last

def roundsOver (eval : Evaluator) (tested : Bool) (name : Bytes) (body : Command) :
    List Bytes → Run Unit
  | [] => return
  | value :: rest => do
    assign name value
    match ← inLoop (eval tested body) with
    | .left => return
    | _ => roundsOver eval tested name body rest

/-- Rounds after which a loop is given up. -/
def roundLimit : Nat := 100000

def looping (body : Run Unit) : Run Unit := do
  modify fun s => { s with loops := s.loops + 1 }
  restoring (fun _ after => { after with loops := after.loops - 1 }) body

/-- The first clause with a pattern that matches. -/
def selected (eval : Evaluator) (tested : Bool) (subject : List Char) :
    List (List Word × Command) → Run Unit
  | [] => setStatus 0
  | (choices, body) :: rest => do
    let isChosen ← choices.anyM fun choice => do
      return (← Expansion.pattern (capture eval) choice).isMatch subject
    if isChosen then eval tested body else selected eval tested subject rest

/-- Runs commands side by side, each on the output of the one before it. -/
def piped (eval : Evaluator) (tested : Bool) :
    (input : State → State) → List Command → Run Ending
  | _, [] => return .exited 0
  | input, [c] => isolated eval true input (eval tested c)
  | input, c :: rest => do
    let output ← addStream (.gathered [])
    discard (isolated eval true (setStream 1 output ∘ input) (eval tested c))
    let next ← addStream (.supplied ((← get).world.gathered output))
    piped eval tested (setStream 0 next) rest

def declaringNames : List String := ["export", "readonly", "local"]

/-- A word that is an assignment, with the tildes in its value replaced. -/
def assigning? : Word → Option Word
  | .text bytes false :: rest =>
    match takeName (charsOf bytes) with
    | (c :: name, '=' :: value) =>
      some (.text (bytesOfChars (c :: name ++ ['='])) false
        :: Reader.withHome true (.text (bytesOfChars value) false :: rest))
    | _ => none
  | _ => none

/-- Operands of a command that declares variables. One that is an assignment is one field. -/
def declaredFields (eval : Evaluator) : List Word → Run (List Bytes)
  | [] => return []
  | w :: rest => do
    let here ← match assigning? w with
      | some w => pure [← Expansion.text (capture eval) w]
      | none => Expansion.fields (capture eval) w
    return here ++ (← declaredFields eval rest)

/-- The name and the operands of a command. -/
def commandFields (eval : Evaluator) : List Word → Run (List Bytes)
  | [] => return []
  | w :: rest => do
    match ← Expansion.fields (capture eval) w with
    | [] => commandFields eval rest
    | name :: operands => do
      let isDeclaring := declaringNames.any (bytesOf · = name)
      let more ← if isDeclaring then declaredFields eval rest
        else Expansion.allFields (capture eval) rest
      return name :: operands ++ more

/-- Calls of functions inside one another. -/
def callLimit : Nat := 1000

def callFunction (eval : Evaluator) (tested : Bool) (body : Command) (operands : List Bytes) :
    Run Unit :=
  let mend (before after : State) : State :=
    { after.closeScope with args := before.args, loops := before.loops, calls := before.calls }
  restoring mend do
    if callLimit ≤ (← get).calls then
      fail (bytesOf ("Maximum function recursion depth (" ++ toString callLimit ++ ") reached"))
    modify fun s => { s.openScope with args := operands, loops := 0, calls := s.calls + 1 }
    catching .returned (eval tested body) (return)

/-- Runs the commands of a file in this shell. Nobody waits for the status of any of them. -/
def source (eval : Evaluator) (operands : List Bytes) : Run Unit := do
  match operands with
  | [] => setStatus 0
  | file :: _ => do
    let s ← get
    let found? := if Path.slash ∈ file then some ⟨file⟩
      else (Search.candidates (Search.searchPath? s false) file).find? s.world.fs.isFile
    let path ← orFail (Complaint.notFound file) found?
    match s.world.fs.read path with
    | .error error => fail (Complaint.cannotOpen file error)
    | .ok text => do
      set { s with command := path.bytes }
      catching .returned (runText eval false text) (return)

/-- Carries a command out, once its streams and variables are set. -/
def invoke (start : Starter) (eval : Evaluator) (tested ordinary standard : Bool) (name : Bytes)
    (operands : List Bytes) : Run Unit := do
  let run : Run Unit := match Utf8.lossy name with
    | "eval" => runText eval tested (joined (bytesOf " ") operands)
    | "." => source eval operands
    | "exec" =>
      match operands with
      | [] => setStatus 0
      | _ => Search.replace start operands
    | "command" => Meaning.identifyFirst operands
    | "type" => Meaning.identifyAll operands
    | text =>
      match Builtin.ofName? text with
      | some builtin => builtin operands
      | none => Search.run start standard (name :: operands)
  let isProgram := !Meaning.isBuiltin name
  let run : Run Unit := if isProgram then run
    else restoring (fun before after => { after with command := before.command }) do
      modify ({ · with command := name })
      run
  if ordinary then catching .failed run (setStatus 2) else run

/-- How a command is to be found and carried out. -/
structure Manner where
  /-- Only as a program or a command of the shell, none of which is special. -/
  isDemoted : Bool := false
  /-- In the standard search path. -/
  isStandard : Bool := false

/-- Takes the options off the word that demotes a command; `none` if they have another purpose or
no command follows. -/
def demoted? (m : Manner) : List Bytes → Option (Manner × List Bytes)
  | [] => none
  | first :: rest =>
    match charsOf first with
    | ['-', '-'] => if rest = [] then none else some (m, rest)
    | '-' :: c :: letters =>
      if (c :: letters).all (· == 'p') then demoted? { m with isStandard := true } rest else none
    | _ => some (m, first :: rest)

/-- The manner of a command, and the words that are left of it. -/
def mannerOf : Nat → Manner → List Bytes → Manner × List Bytes
  | fuel + 1, m, first :: rest =>
    if first = bytesOf "command" then
      match demoted? { m with isDemoted := true } rest with
      | some (m, rest) => mannerOf fuel m rest
      | none => (m, first :: rest)
    else (m, first :: rest)
  | _, m, words => (m, words)

/-- Makes assignments in order, and gives them back as texts. -/
def assignAll (eval : Evaluator) (prepare : Bytes → Run Unit) (isExported : Bool) :
    List (Bytes × Word) → Run (List Bytes)
  | [] => return []
  | (name, w) :: rest => do
    let value ← Expansion.text (capture eval) w
    prepare name
    assign name value
    if isExported then
      modify fun s => s.setBinding name { s.binding name with isExported := true }
    return (name ++ 0x3D :: value) :: (← assignAll eval prepare isExported rest)

/-- Shows a command before it is carried out, if the shell is set to do so. The error output is
the one of the shell, not of the command. -/
def trace (streams : List (Nat × Nat)) (words : List Bytes) : Run Unit := do
  let s ← get
  if s.has 'x' then
    let mark := (s.value? (bytesOf "PS4")).getD (bytesOf "+ ")
    let text := mark ++ joined (bytesOf " ") words ++ bytesOf "\n"
    if let some world := (streams.lookup 2).bind fun index => s.world.write index text then
      set { s with world := world }

/-- A command with a name. Only special commands keep the variables that are assigned before
them, and only the replacement of the shell by nothing keeps its redirections. -/
def named (start : Starter) (eval : Evaluator) (tested : Bool)
    (assignments : List (Bytes × Word)) (allWords : List Bytes) (rs : List Redirect) :
    Run Unit := do
  let streams := (← get).process.streams
  let (manner, words) := mannerOf allWords.length {} allWords
  let name := words.headD []
  let operands := words.drop 1
  let isSpecial := Meaning.isSpecial name && !manner.isDemoted
  let keepsStreams := name = bytesOf "exec" ∧ operands = []
  let mend (before after : State) : State :=
    let after := if keepsStreams then after else after.setStreams before.process.streams
    if isSpecial then after else after.closeScope
  if !isSpecial then modify State.openScope
  restoring mend do
    if ← redirectAll eval rs then
      let assigned ← if isSpecial then
          assignAll eval (fun _ => return) (name = bytesOf "exec") assignments
        else assignAll eval (fun name => modify (·.remember name)) true assignments
      trace streams (assigned ++ allWords)
      let s ← get
      match if manner.isDemoted then none else s.functions.lookup name with
      | some body => callFunction eval tested body operands
      | none => invoke start eval tested (!isSpecial) manner.isStandard name operands
    else
      setStatus 2
      if isSpecial then throw .failed

def simple (start : Starter) (eval : Evaluator) (tested : Bool)
    (assignments : List (Bytes × Word)) (words : List Word) (rs : List Redirect) : Run Unit := do
  modify ({ · with insertedStatus := 0 })
  match ← commandFields eval words with
  | [] => do
    let streams := (← get).process.streams
    redirected eval rs do
      trace streams (← assignAll eval (fun _ => return) false assignments)
      setStatus (← get).insertedStatus
  | fields => named start eval tested assignments fields rs

/-- Ends the shell after a failure that nobody waits for, if it is set to do so. -/
def checkFailure (tested : Bool) : Run Unit := do
  let s ← get
  if s.has 'e' ∧ !tested ∧ s.status ≠ 0 then throw .exited

/-- Carries one command out. -/
def step (start : Starter) (eval : Evaluator) (tested : Bool) : Command → Run Unit
  | .nothing => setStatus 0
  | .simple assignments words rs => do
    tryCatch (simple start eval tested assignments words rs) fun jump => do
      if jump = .returned then checkFailure tested
      throw jump
    checkFailure tested
  | .sequence commands => do
    for c in commands do eval tested c
  | .background body => do
    let input ← addStream .null
    let number := (← get).world.nextNumber
    let ending ← isolated eval false (setStream 0 input) (eval false body)
    modify fun s =>
      { s with
        lastStarted := some number
        finished := (number, ending.status) :: s.finished
        status := 0 }
  | .andThen first second => do
    eval true first
    if (← get).status = 0 then eval tested second
  | .orElse first second => do
    eval true first
    if (← get).status ≠ 0 then eval tested second
  | .negate body => do
    eval true body
    setStatus (if (← get).status = 0 then 1 else 0)
  | .pipeline commands => do
    setStatus (← piped eval tested id commands).status
    checkFailure tested
  | .group body rs => redirected eval rs (eval tested body)
  | .subshell body rs => do
    let ending ← isolated eval true id do
      if ← redirectAll eval rs then eval tested body
      else
        setStatus 2
        throw .failed
    setStatus ending.status
    checkFailure tested
  | .choose condition yes no => do
    eval true condition
    if (← get).status = 0 then eval tested yes else eval tested no
  | .loop expected condition body =>
    looping (rounds eval tested expected condition body roundLimit 0)
  | .each name words body => do
    let values ← Expansion.allFields (capture eval) words
    if values = [] then setStatus 0
    looping (roundsOver eval tested name body values)
  | .select subject clauses => do
    let subject ← Expansion.text (capture eval) subject
    selected eval tested (charsOf subject) clauses
  | .placed line body => do
    modify ({ · with line := line })
    eval tested body
  | .define name body =>
    modify fun s =>
      { s with functions := (name, body) :: s.functions.filter (·.1 ≠ name), status := 0 }

/-- Takes the signals that have been sent. -/
def takeSignals (eval : Evaluator) : Nat → Run Unit
  | 0 => return
  | fuel + 1 => do
    let s ← get
    match s.world.receive s.process.number with
    | none => return
    | some (signal, world) => do
      set { s with world := world }
      match if isUnstoppable signal then none else s.traps.lookup signal with
      | some [] => pure ()
      | some action => do
        runText eval false action
        setStatus s.status
      | none => if !isHarmless signal then throw (.ended (.killed signal))
      takeSignals eval fuel

/-- Runs a command within a depth of nesting. -/
def evaluate (start : Starter) : Nat → Evaluator
  | 0, _, _ => throw .exhausted
  | depth + 1, tested, c => do
    if (← get).has 'n' then return
    step start (evaluate start depth) tested c
    takeSignals (evaluate start depth) signalLimit

/-- Depth after which a run is given up. -/
def depthLimit : Nat := 20000

/-- Takes the options off the words that a shell is started with. The flag says that a command
stands among the words. -/
def startOptions : Nat → Bool → List Bytes → Run (Bool × List Bytes)
  | 0, hasText, words => return (hasText, words)
  | _, hasText, [] => return (hasText, [])
  | fuel + 1, hasText, first :: words =>
    let known (letters : List Char) : List Char := letters.filter fun c => c != 'c' && c != 'l'
    match charsOf first with
    | ['-'] | ['-', '-'] => return (hasText, words)
    | '-' :: letters => do
      let words ← Builtin.setOptions true (known letters) words
      startOptions fuel (hasText || letters.contains 'c') words
    | '+' :: letters => do
      startOptions fuel hasText (← Builtin.setOptions false (known letters) words)
    | _ => return (hasText, first :: words)

/-- The text that a shell is started to run. -/
def startText (words : List Bytes) : Run Bytes := do
  let (hasText, words) ← startOptions (words.length + 1) false words
  let s ← get
  match hasText, words with
  | true, [] => fail (bytesOf "-c requires an argument")
  | true, text :: name :: args => do
    set { s with name := name, args := args }
    return text
  | true, [text] => return text
  | false, file :: args =>
    if s.has 's' then
      set { s with args := file :: args }
      inputText s
    else do
      set { s with args := args }
      match s.world.fs.read ⟨file⟩ with
      | .ok text => do
        modify ({ · with name := file })
        return text
      | .error .isADirectory => return []
      | .error error => fail (Complaint.cannotOpen file error)
  | false, [] => inputText s
where
  inputText (s : State) : Run Bytes := do
    match s.process.streams.lookup 0 with
    | some index => do
      let text := (s.world.remaining index).getD []
      modify (·.mapWorld (·.consume index text.length))
      return text
    | none => return []

/-- The state of a shell at its start. -/
def initial (p : Process) (w : World) : State :=
  let s : State :=
    { process := p
      world := w
      number := p.number
      name := p.name
      args := []
      traps := p.ignored.map fun signal => (signal, []) }
  let bindings : List (Bytes × Binding) :=
    [(bytesOf "IFS", { value := some (bytesOf " \t\n") }),
     (bytesOf "OPTIND", { value := some (bytesOf "1") }),
     (bytesOf "PPID", { value := some (bytesOfNat p.parent) }),
     (bytesOf "PWD", { value := some (Builtin.workingDir s), isExported := true })]
  let path := bytesOf "PATH"
  let standard :=
    if (s.value? path).isSome then [] else [(path, { value := some Search.standardPath })]
  { s with bindings := standard ++ bindings }

end Evaluation

/-- Runs a shell. -/
def run (start : Machine.Starter) (p : Machine.Process) (w : Machine.World) :
    Machine.Ending × Machine.World :=
  let eval := Evaluation.evaluate start Evaluation.depthLimit
  let body : Run Unit := do Evaluation.runText eval false (← Evaluation.startText p.args)
  let (result, s) := body.run.run (Evaluation.initial p w)
  Evaluation.concluded eval result s

end CompilerDriver.Shell
