import CompilerDriver.Shell.Expansion
import CompilerDriver.Shell.Print
import CompilerDriver.Shell.Reader.Command
import CompilerDriver.Shell.Test

/-! Commands that the shell carries out itself and that run no other command. -/
namespace CompilerDriver.Shell

open CompilerDriver.Machine

namespace Builtin

def numberIn (word : Bytes) : Run Nat := orFail (Complaint.illegalNumber word) (count? word)

def print (text : Bytes) : Run Unit := do
  let isWritten ← write 1 text
  setStatus (if isWritten then 0 else 1)

/-- Takes the options off some operands. Each must be a known letter. -/
def optionsOf (known : String) (operands : List Bytes) : Run (List Char × List Bytes) := do
  match operands with
  | [] => return ([], [])
  | first :: rest =>
    match charsOf first with
    | ['-', '-'] => return ([], rest)
    | '-' :: c :: letters => do
      if let some unknown := (c :: letters).find? (!known.toList.contains ·) then
        fail (Complaint.illegalOption (bytesOfChars ['-', unknown]))
      let (more, operands) ← optionsOf known rest
      return (c :: letters ++ more, operands)
    | _ => return ([], operands)

def countOr (default : Nat) (operands : List Bytes) : Run Nat := do
  match operands with
  | [] => return default
  | first :: _ => numberIn first

def leaveLoops (jump : Nat → Jump) (operands : List Bytes) : Run Unit := do
  let wanted ← countOr 1 operands
  if wanted = 0 then fail (Complaint.illegalNumber (operands.headD []))
  let n := min wanted (← get).loops
  setStatus 0
  if n ≠ 0 then throw (jump n)

def exit (operands : List Bytes) : Run Unit := do
  setStatus (← countOr (← get).status operands)
  throw .exited

def leaveFunction (operands : List Bytes) : Run Unit := do
  setStatus (← countOr (← get).status operands)
  throw .returned

def shift (operands : List Bytes) : Run Unit := do
  let n ← countOr 1 operands
  let s ← get
  if s.args.length < n then fail (bytesOf "can't shift that many")
  set { s with args := s.args.drop n, status := 0 }

/-- Turns an option on or off. Job control needs a terminal, which there is not. -/
def setOption (on : Bool) (letter : Char) : Run Unit := do
  if !optionNames.any (·.1 == letter) then
    fail (Complaint.illegalOption (bytesOfChars ['-', letter]))
  modify fun s =>
    let others := s.options.filter (· != letter)
    { s with options := if on && letter != 'm' then letter :: others else others }

/-- Sets the options of one word; one of them may be named by the next word. -/
def setOptions (on : Bool) : List Char → List Bytes → Run (List Bytes)
  | [], operands => return operands
  | 'o' :: letters, name :: operands => do
    let letter? := (optionNames.find? fun o => bytesOf o.2 = name).map (·.1)
    let letter ← orFail (Complaint.illegalOption (bytesOf "-o " ++ name)) letter?
    setOption on letter
    setOptions on letters operands
  | 'o' :: letters, [] => setOptions on letters []
  | letter :: letters, operands => do
    setOption on letter
    setOptions on letters operands

/-- Takes option words off some operands. The flag says whether they were ended explicitly. -/
def takeOptions : Nat → List Bytes → Run (List Bytes × Bool)
  | 0, operands => return (operands, false)
  | _, [] => return ([], false)
  | fuel + 1, first :: operands =>
    match charsOf first with
    | ['-'] | ['-', '-'] => return (operands, true)
    | '-' :: letters => do takeOptions fuel (← setOptions true letters operands)
    | '+' :: letters => do takeOptions fuel (← setOptions false letters operands)
    | _ => return (first :: operands, false)

/-- Sets options and arguments. -/
def setShell (operands : List Bytes) : Run Unit := do
  let (rest, isEnded) ← takeOptions (operands.length + 1) operands
  let resets := rest ≠ [] ∨ (isEnded ∧ operands.getLast? = some (bytesOf "--"))
  modify fun s => { s with args := if resets then rest else s.args, status := 0 }

/-- An operand that may be an assignment, in parts. -/
def declared (operand : Bytes) : Run (Bytes × Option Bytes) := do
  match takeName (charsOf operand) with
  | (c :: name, []) => return (bytesOfChars (c :: name), none)
  | (c :: name, '=' :: value) => return (bytesOfChars (c :: name), some (bytesOfChars value))
  | _ => fail (Complaint.badName (operand.takeWhile (· ≠ 0x3D)))

def declare (mark : Binding → Binding) (operands : List Bytes) : Run Unit := do
  let (_, operands) ← optionsOf "p" operands
  for operand in operands do
    let (name, value?) ← declared operand
    if let some value := value? then assign name value
    modify fun s => s.setBinding name (mark (s.binding name))
  setStatus 0

def makeLocal (operands : List Bytes) : Run Unit := do
  if (← get).calls = 0 then fail (bytesOf "not in a function")
  for operand in operands do
    let (name, value?) ← declared operand
    modify (·.remember name)
    if let some value := value? then assign name value
  setStatus 0

/-- Forgets variables, or functions where that is asked for. -/
def unset (operands : List Bytes) : Run Unit := do
  let (options, names) ← optionsOf "fv" operands
  for name in names do
    if 'f' ∈ options then
      modify fun s => { s with functions := s.functions.filter (·.1 ≠ name) }
    else
      if !isName (charsOf name) then fail (Complaint.badName name)
      if ((← get).binding name).isFixed then fail (Complaint.readOnly name)
      modify (·.setBinding name {})
  setStatus 0

/-- The absolute path of the working directory. -/
def workingDir (s : State) : Bytes := (Location.toPath s.world.fs.workingDir).bytes

def changeDir (operands : List Bytes) : Run Unit := do
  let (_, operands) ← optionsOf "LP" operands
  let s ← get
  let isBack := operands.head? = some (bytesOf "-")
  let target := match operands with
    | [] => (s.value? (bytesOf "HOME")).getD []
    | first :: _ => if isBack then (s.value? (bytesOf "OLDPWD")).getD [] else first
  let path : Path := ⟨if target = [] then bytesOf "." else target⟩
  let fs ← orFail (Complaint.cannotEnter target) (s.world.fs.changeDir path).toOption
  assign (bytesOf "OLDPWD") (workingDir s)
  modify (·.mapWorld fun w => { w with fs := fs })
  assign (bytesOf "PWD") (workingDir (← get))
  setStatus 0
  if isBack then print (workingDir (← get) ++ bytesOf "\n")

/-- The characters of the first line, how many bytes they took, and whether the line has an
end. -/
def takeLine (raw : Bool) : List Char → List Glyph × Nat × Bool
  | [] => ([], 0, false)
  | '\n' :: _ => ([], 1, true)
  | '\\' :: c :: rest =>
    if raw then
      let (line, n, ended) := takeLine raw (c :: rest)
      (⟨'\\', false⟩ :: line, n + 1, ended)
    else
      let (line, n, ended) := takeLine raw rest
      (if c == '\n' then line else ⟨c, true⟩ :: line, n + 2, ended)
  | c :: rest =>
    let (line, n, ended) := takeLine raw rest
    (if c == '\x00' || (c == '\\' && !raw) then line else ⟨c, false⟩ :: line, n + 1, ended)

/-- Splits a line among a number of names. The last one takes what is left. -/
def shared (separators : Bytes) : Nat → List Glyph → List Bytes
  | 0, _ => []
  | n + 1, line =>
    let isSeparator (g : Glyph) : Bool := !g.quoted && (charsOf separators).contains g.char
    let isGap (g : Glyph) : Bool := isSeparator g && (isBlank g.char || g.char == '\n')
    let line := line.dropWhile isGap
    let field := line.takeWhile (!isSeparator ·)
    let afterGap := (line.dropWhile (!isSeparator ·)).dropWhile isGap
    let rest := match afterGap with
      | g :: rest => if isSeparator g then rest.dropWhile isGap else afterGap
      | [] => []
    if n = 0 ∧ rest ≠ [] then [Glyph.textOf (line.reverse.dropWhile isGap).reverse]
    else Glyph.textOf field :: shared separators n rest

def readLine (operands : List Bytes) : Run Unit := do
  let (options, names) ← optionsOf "r" operands
  let raw := 'r' ∈ options
  if names = [] then fail (bytesOf "arg count")
  let s ← get
  let input := s.process.streams.lookup 0
  let text := ((input.bind s.world.remaining).getD [])
  let (line, taken, ended) := takeLine raw (charsOf text)
  if let some index := input then set { s with world := s.world.consume index taken }
  for (name, value) in names.zip (shared s.separators names.length line) do
    if !isName (charsOf name) then fail (Complaint.badName name)
    assign name value
  setStatus (if ended then 0 else 1)

/-- The signal that a word names or numbers. -/
def signal? (word : Bytes) : Option Nat :=
  let cs := charsOf word
  if cs ≠ [] ∧ cs.all Char.isDigit then
    let n := valueOfDigits 10 cs
    if n < signalLimit then some n else none
  else signalNamed? (Utf8.lossy word)

def killUsage : Bytes :=
  bytesOf "Usage: kill [-s sigspec | -signum | -sigspec] [pid | job]... or\nkill -l [exitstatus]"

/-- Sends a signal to programs by number. No group of programs has a number of its own here. -/
def sendTo (signal : Nat) (targets : List Bytes) : Run Unit := do
  if targets = [] then fail killUsage
  setStatus 0
  for target in targets do
    let isGroup := (charsOf target).head? = some '-'
    let number ← numberIn (if isGroup then target.drop 1 else target)
    let s ← get
    match if isGroup then none else s.world.send number signal with
    | some world => set { s with world := world }
    | none => do
      complain (bytesOf "No such process\n")
      setStatus 1

/-- Shows the names of all signals, or of the one that a status stands for. -/
def listSignals (operands : List Bytes) : Run Unit := do
  let shown (names : List String) : Bytes := bytesOf (String.join (names.map (· ++ "\n")))
  match operands with
  | [] => print (shown ("0" :: signalNames))
  | word :: _ => do
    let n ← numberIn word
    let name? := signalName? (if 128 < n then n - 128 else n)
    let name ← orFail (bytesOf "invalid signal number or exit status: " ++ word) name?
    print (shown [name])

def kill (operands : List Bytes) : Run Unit := do
  let named (name : Bytes) : Run Nat :=
    orFail (bytesOf "invalid signal number or name: " ++ name) (signal? name)
  match operands with
  | [] => fail killUsage
  | option :: targets =>
    match charsOf option, targets with
    | ['-', '-'], _ => sendTo terminateSignal targets
    | ['-', 's'], name :: targets => do
      let targets := if targets.head? = some (bytesOf "--") then targets.drop 1 else targets
      sendTo (← named name) targets
    | ['-', 'l'], _ => listSignals targets
    | '-' :: letter :: letters, _ =>
      match signal? (bytesOfChars (letter :: letters)) with
      | some signal => sendTo signal targets
      | none => do
        if letter == 's' then sendTo (← named (bytesOfChars letters)) targets
        else fail (Complaint.illegalOption (bytesOfChars ['-', letter]))
    | _, _ => sendTo terminateSignal operands

/-- A text in quotes, as the shell would read it back. -/
def quotedText (bs : Bytes) : Bytes :=
  let rec go (opened : Bool) : List Char → List Char
    | [] => if opened then ['\''] else []
    | c :: rest =>
      if c == '\'' then
        (if opened then ['\''] else []) ++ '"' :: c :: '"' :: go false rest
      else (if opened then [] else ['\'']) ++ c :: go true rest
  bytesOfChars ('\'' :: go true (charsOf bs))

/-- Shows the actions on signals, in the order of their numbers. -/
def listTraps : Run Unit := do
  let traps := (← get).traps.mergeSort fun a b => a.1 ≤ b.1
  print (traps.flatMap fun (n, action) =>
    let name := if n = 0 then "EXIT" else (signalName? n).getD ""
    bytesOf "trap -- " ++ quotedText action ++ bytesOf (" " ++ name ++ "\n"))

/-- Says what to do on signals. An action that is empty ignores them, and a dash undoes an
earlier one. -/
def trap (operands : List Bytes) : Run Unit := do
  let (_, operands) ← optionsOf "" operands
  let number? (word : Bytes) : Option Nat :=
    if (Utf8.lossy word).toUpper = "EXIT" then some 0 else signal? word
  let (action, names) : Option Bytes × List Bytes :=
    match operands with
    | [name] => (none, [name])
    | first :: rest =>
      if (number? first).isSome then (none, operands)
      else (if first = bytesOf "-" then none else some first, rest)
    | [] => (none, [])
  if names = [] then listTraps else setStatus 0
  for name in names do
    match number? name with
    | some n => modify fun s =>
      let others := s.traps.filter (·.1 ≠ n)
      { s with traps := match action with
          | some action => (n, action) :: others
          | none => others }
    | none => do
      discard (write 2 (bytesOf "trap: " ++ name ++ bytesOf ": bad trap\n"))
      setStatus 1
      return

def waitFor (operands : List Bytes) : Run Unit := do
  setStatus 0
  for operand in operands do
    let number ← numberIn operand
    setStatus (((← get).finished.lookup number).getD 127)

/-- Shows the marks that new files do not get, or sets them by an octal number. -/
def mask (operands : List Bytes) : Run Unit := do
  let (_, operands) ← optionsOf "S" operands
  match operands with
  | [] => do
    let digits := Nat.toDigits 8 (← get).mask
    print (bytesOfChars (List.replicate (4 - digits.length) '0' ++ digits ++ ['\n']))
  | word :: _ => do
    let cs := charsOf word
    if cs.head?.any Char.isDigit then
      if !cs.all isOctalDigit then fail (Complaint.illegalNumber word)
      modify fun s => { s with mask := valueOfDigits 8 cs % 512 }
    else if !cs.all "ugoa=+-rwxXst,".toList.contains then fail (bytesOf "Illegal mode: " ++ word)
    setStatus 0

/-- One more option of some words: the letter that is found, its operand, and the place after
it. -/
structure Found where
  letter : Char
  operand : Option Bytes
  index : Nat
  offset : Nat
  complaint? : Option Bytes := none

/-- The option at a place: the number of a word, from one on, and an offset in the word before
it, or zero. -/
def nextOption (known : List Char) (words : List Bytes) (index offset : Nat) :
    Except Nat Found :=
  let started := ((words[index - 2]?.map charsOf).getD []).drop offset
  let fresh := (words[index - 1]?.map charsOf).getD []
  let start : Except Nat (List Char × Nat × Nat) :=
    if index > 1 ∧ offset > 0 ∧ started ≠ [] then .ok (started, index, offset)
    else match fresh with
      | ['-', '-'] => .error (index + 1)
      | '-' :: c :: rest => .ok (c :: rest, index + 1, 1)
      | _ => .error index
  match start with
  | .error index => .error index
  | .ok ([], index, _) => .error index
  | .ok (c :: rest, index, offset) =>
    let after := if rest = [] then 0 else offset + 1
    let isSilent := known.head? = some ':'
    let refused : Found :=
      if isSilent then ⟨'?', some (bytesOfChars [c]), index, after, none⟩
      else ⟨'?', none, index, after,
        some (bytesOf "Illegal option -" ++ bytesOfChars [c, '\n'])⟩
    match known.dropWhile (· != c) with
    | _ :: ':' :: _ =>
      if c == ':' then .ok refused
      else if rest ≠ [] then .ok ⟨c, some (bytesOfChars rest), index, 0, none⟩
      else match words[index - 1]? with
        | some operand => .ok ⟨c, some operand, index + 1, 0, none⟩
        | none =>
          if isSilent then .ok ⟨':', some (bytesOfChars [c]), index, 0, none⟩
          else .ok ⟨'?', none, index, 0,
            some (bytesOf "No arg for -" ++ bytesOfChars [c] ++ bytesOf " option\n")⟩
    | _ :: _ =>
      if c == ':' then .ok refused
      else .ok ⟨c, some [], index, after, none⟩
    | [] => .ok refused

def readOption (operands : List Bytes) : Run Unit := do
  match operands with
  | known :: name :: words => do
    let s ← get
    let words := if words = [] then s.args else words
    let index := max 1 (((s.value? (bytesOf "OPTIND")).bind count?).getD 1)
    match nextOption (charsOf known) words index s.optionOffset with
    | .error index => do
      assign (bytesOf "OPTIND") (bytesOfNat index)
      assign name (bytesOf "?")
      setStatus 1
    | .ok found => do
      assign (bytesOf "OPTIND") (bytesOfNat found.index)
      assign name (bytesOfChars [found.letter])
      match found.operand with
      | some operand => assign (bytesOf "OPTARG") operand
      | none => modify (·.setBinding (bytesOf "OPTARG") {})
      if let some complaint := found.complaint? then discard (write 2 complaint)
      modify ({ · with optionOffset := found.offset, status := 0 })
  | _ => fail (bytesOf "Usage: getopts optstring var [arg...]")

/-- Looks names up that stand for other words. None does here. -/
def lookUpAliases (command : String) (operands : List Bytes) : Run Unit := do
  setStatus 0
  for operand in operands do
    if !operand.contains 0x3D then
      discard (write 2 (bytesOf (command ++ ": ") ++ operand ++ bytesOf " not found\n"))
      setStatus 1

def testOperands (isBracketed : Bool) (operands : List Bytes) : Run Unit := do
  let answer := Test.verdict (← get).world.fs isBracketed operands
  if let .error error := answer then complain error.message
  setStatus (Test.status answer)

/-- Commands that the shell carries out itself, apart from those that run others. -/
def ofName? (name : String) : Option (List Bytes → Run Unit) :=
  match name with
  | ":" | "true" | "times" | "ulimit" | "hash" | "jobs" =>
    some fun _ => setStatus 0
  | "alias" | "unalias" => some (lookUpAliases name)
  | "false" => some fun _ => setStatus 1
  | "umask" => some mask
  | "echo" => some fun operands => print (Print.echo operands)
  | "printf" => some fun operands =>
    match operands.dropWhile (· = bytesOf "--") with
    | format :: operands => do
      let p := Print.formatted format operands
      for flaw in p.flaws do complain flaw.message
      let isWritten ← write 1 p.written
      setStatus (if isWritten then p.status else 1)
    | [] => fail (bytesOf "usage: printf format [arg ...]")
  | "test" => some (testOperands false)
  | "[" => some (testOperands true)
  | "break" => some (leaveLoops .leave)
  | "continue" => some (leaveLoops .again)
  | "exit" => some exit
  | "return" => some leaveFunction
  | "shift" => some shift
  | "set" => some setShell
  | "export" => some (declare ({ · with isExported := true }))
  | "readonly" => some (declare ({ · with isFixed := true }))
  | "local" => some makeLocal
  | "unset" => some unset
  | "cd" | "chdir" => some changeDir
  | "pwd" => some fun _ => do print (workingDir (← get) ++ bytesOf "\n")
  | "read" => some readLine
  | "kill" => some kill
  | "trap" => some trap
  | "wait" => some waitFor
  | "getopts" => some readOption
  | _ => none

end Builtin

end CompilerDriver.Shell
