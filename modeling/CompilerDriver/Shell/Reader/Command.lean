import CompilerDriver.Shell.Reader.Document

/-! Reading commands and programs. -/
namespace CompilerDriver.Shell

namespace Reader

/-- A redirection, if one comes next. -/
def redirect? (below : Level) : Reader (Option Redirect) := do
  skipBlanks
  let rest ← peek
  let (given, rest) : Option Nat × List Char :=
    match rest with
    | d :: '<' :: _ | d :: '>' :: _ =>
      if d.isDigit then (some (digitValue d), rest.drop 1) else (none, rest)
    | _ => (none, rest)
  let file (descriptor : Nat) (kind : RedirectKind) (rest : List Char) :
      Reader (Option Redirect) := do
    setRest rest
    return some (.file (given.getD descriptor) kind (← word below false))
  let document (dropsTabs : Bool) (rest : List Char) : Reader (Option Redirect) := do
    setRest rest
    return some (.document (given.getD 0) (← announce dropsTabs))
  match rest with
  | '<' :: '<' :: '-' :: rest => document true rest
  | '<' :: '<' :: rest => document false rest
  | '<' :: '&' :: rest => file 0 .duplicate rest
  | '<' :: '>' :: rest => file 0 .update rest
  | '<' :: rest => file 0 .read rest
  | '>' :: '>' :: rest => file 1 .append rest
  | '>' :: '|' :: rest => file 1 .overwrite rest
  | '>' :: '&' :: rest => file 1 .duplicate rest
  | '>' :: rest => file 1 .write rest
  | _ => return none

def redirects (below : Level) : Nat → Reader (List Redirect)
  | 0 => return []
  | fuel + 1 => do
    match ← redirect? below with
    | some r => return r :: (← redirects below fuel)
    | none => return []

def redirectsHere (below : Level) : Reader (List Redirect) := do
  redirects below ((← peek).length + 1)

def specialNames : List String :=
  [".", ":", "break", "continue", "eval", "exec", "exit", "export", "local", "readonly", "return",
   "set", "shift", "times", "trap", "unset"]

/-- The assignment that comes next, if one does. -/
def assignment? (below : Level) : Reader (Option (Bytes × Word)) := do
  let rest ← peek
  match takeName rest with
  | ([], _) => return none
  | (name, '=' :: rest) => do
    setRest rest
    let value ← parts below .plain (rest.length + 1) 0 []
    return some (bytesOfChars name, withHome true value)
  | _ => return none

/-- A simple command, or the definition of a function. -/
def simple (below : Level) :
    Nat → List (Bytes × Word) → List Word → List Redirect → Reader Command
  | 0, _, _, _ => reject ""
  | fuel + 1, assignments, words, redirects => do
    match ← redirect? below with
    | some r => simple below fuel assignments words (redirects ++ [r])
    | none =>
      let rest ← peek
      let isDone := rest = [] ∨ rest.head?.any endsWord
      match words, rest with
      | [[.text name false]], '(' :: rest =>
        if assignments.isEmpty ∧ redirects.isEmpty then do
          setRest rest
          expectClosing false
          if isName (charsOf name) ∧ !specialNames.any (bytesOf · = name) then do
            skipNewlines below
            return .define name (← below.command)
          else reject "Bad function name"
        else unexpected false none
      | _, _ =>
        if isDone then
          if assignments.isEmpty ∧ words.isEmpty ∧ redirects.isEmpty then unexpected true none
          else return .simple assignments words redirects
        else if words.isEmpty then
          match ← assignment? below with
          | some a => simple below fuel (assignments ++ [a]) words redirects
          | none => simple below fuel assignments [← word below false] redirects
        else simple below fuel assignments (words ++ [← word below false]) redirects

/-- The rest of a conditional after its `if` or `elif`. -/
def conditional (below : Level) : Nat → Reader Command
  | 0 => reject ""
  | fuel + 1 => do
    let condition ← below.commands false
    expect "then"
    let yes ← below.commands false
    if ← takeKeyword "elif" then return .choose condition yes (← conditional below fuel)
    else if ← takeKeyword "else" then
      let no ← below.commands false
      expect "fi"
      return .choose condition yes no
    else
      expect "fi"
      return .choose condition yes .nothing

def words (below : Level) : Nat → Reader (List Word)
  | 0 => return []
  | fuel + 1 => do
    skipBlanks
    let rest ← peek
    if rest = [] ∨ rest.head?.any endsWord then return []
    else return (← word below false) :: (← words below fuel)

/-- Takes a separator of a loop over words, which is a semicolon or the end of the line. -/
def listEnd (below : Level) : Reader Unit := do
  skipBlanks
  match ← peek with
  | ';' :: ';' :: _ => unexpected false none
  | ';' :: rest => setRest rest
  | '\n' :: _ => newline below
  | _ => unexpected false none

/-- The rest of a loop over words after its `for`. -/
def eachLoop (below : Level) : Reader Command := do
  skipBlanks
  let (name, rest) := takeName (← peek)
  if name = [] ∨ !(rest = [] ∨ rest.head?.any endsWord) then reject "Bad for loop variable"
  setRest rest
  skipNewlines below
  let list ← if ← takeKeyword "in" then do
      let list ← words below ((← peek).length + 1)
      listEnd below
      pure list
    else do
      match ← peek with
      | ';' :: rest => setRest rest
      | _ => pure ()
      pure [[.parameter (bytesOf "@") .keep true]]
  skipNewlines below
  expect "do"
  let body ← below.commands false
  expect "done"
  return .each (bytesOfChars name) list body

def patterns (below : Level) : Nat → Reader (List Word)
  | 0 => reject ""
  | fuel + 1 => do
    if (← peek).isEmpty then unexpected false (some "\")\"")
    let first ← word below false
    skipBlanks
    match ← peek with
    | '|' :: rest => do
      setRest rest
      return first :: (← patterns below fuel)
    | _ => do
      expectClosing false
      return [first]

/-- The clauses of a selection, up to its end. -/
def clauses (below : Level) : Nat → Reader (List (List Word × Command))
  | 0 => reject ""
  | fuel + 1 => do
    skipNewlines below
    if ← takeKeyword "esac" then return []
    else
      match ← peek with
      | '(' :: rest => setRest rest
      | _ => pure ()
      let choices ← patterns below ((← peek).length + 1)
      let body ← below.commands true
      skipNewlines below
      match ← peek with
      | ';' :: ';' :: rest => do
        setRest rest
        return (choices, body) :: (← clauses below fuel)
      | _ => do
        if !(← takeKeyword "esac") then unexpected true (some "\";;\"")
        return [(choices, body)]

/-- One command with its redirections. -/
def command (below : Level) : Reader Command := do
  let start ← keyword?
  let line ← lineHere
  let grouped (c : Command) : Reader Command := do
    match ← redirectsHere below with
    | [] => return c
    | rs => return .placed line (.group c rs)
  match start with
  | some "if" => do
    expect "if"
    grouped (← conditional below ((← peek).length + 1))
  | some "while" => do
    expect "while"
    let condition ← below.commands false
    expect "do"
    let body ← below.commands false
    expect "done"
    grouped (.loop true condition body)
  | some "until" => do
    expect "until"
    let condition ← below.commands false
    expect "do"
    let body ← below.commands false
    expect "done"
    grouped (.loop false condition body)
  | some "for" => do
    expect "for"
    grouped (.placed line (← eachLoop below))
  | some "case" => do
    expect "case"
    skipBlanks
    if (← peek).head?.all endsWord then unexpected false (some "word")
    let subject ← word below false
    skipNewlines below
    expect "in"
    grouped (.placed line (.select subject (← clauses below ((← peek).length + 1))))
  | some "\x7b" => do
    expect "\x7b"
    let body ← below.commands false
    expect "\x7d"
    match ← redirectsHere below with
    | [] => return .group body []
    | rs => return .placed line (.group body rs)
  | some _ => unexpected true none
  | none =>
    match ← peek with
    | '(' :: rest => do
      setRest rest
      let body ← below.commands false
      expectClosing true
      return .placed line (.subshell body (← redirectsHere below))
    | rest => return .placed line (← simple below (rest.length + 1) [] [] [])

/-- Commands joined by bars. -/
def piped (below : Level) : Nat → Reader (List Command)
  | 0 => reject ""
  | fuel + 1 => do
    let first ← command below
    skipBlanks
    match ← peek with
    | '|' :: '|' :: _ => return [first]
    | '|' :: rest => do
      setRest rest
      skipNewlines below
      return first :: (← piped below fuel)
    | _ => return [first]

def pipeline (below : Level) : Reader Command := do
  let negated ← takeKeyword "!"
  let c := match ← piped below ((← peek).length + 1) with
    | [c] => c
    | cs => .pipeline cs
  return if negated then .negate c else c

/-- Adds to a command what `&&` and `||` join to it. -/
def links (below : Level) : Nat → Command → Reader Command
  | 0, _ => reject ""
  | fuel + 1, first => do
    skipBlanks
    match ← peek with
    | '&' :: '&' :: rest => do
      setRest rest
      skipNewlines below
      links below fuel (.andThen first (← pipeline below))
    | '|' :: '|' :: rest => do
      setRest rest
      skipNewlines below
      links below fuel (.orElse first (← pipeline below))
    | _ => return first

/-- A chain of commands, and whether a separator follows it. -/
def item (below : Level) : Reader (Command × Bool) := do
  let c ← links below ((← peek).length + 1) (← pipeline below)
  match ← peek with
  | '&' :: rest => do
    setRest rest
    return (.background c, true)
  | ';' :: ';' :: _ => return (c, false)
  | ';' :: rest => do
    setRest rest
    return (c, true)
  | '\n' :: _ => return (c, true)
  | _ => return (c, false)

/-- Whether a list of commands ends here. -/
def isClosed : Reader Bool := do
  match ← keyword? with
  | some k => return closers.contains k
  | none =>
    match ← peek with
    | [] | ')' :: _ | ';' :: ';' :: _ => return true
    | _ => return false

def items (below : Level) : Nat → Reader (List Command)
  | 0 => reject ""
  | fuel + 1 => do
    let (c, goesOn) ← item below
    if goesOn then
      skipNewlines below
      if ← isClosed then return [c] else return c :: (← items below fuel)
    else return [c]

def commands (below : Level) (mayBeEmpty : Bool) : Reader Command := do
  skipNewlines below
  if (← peek).isEmpty then return .nothing
  if mayBeEmpty then
    if ← isClosed then return .nothing
  match ← items below ((← peek).length + 1) with
  | [c] => return c
  | cs => return .sequence cs

/-- The readers of a level from those below it. -/
def above (below : Level) : Level where
  word place := do parts below place ((← peek).length + 1) 0 []
  commands := commands below
  command := command below

def level : Nat → Level
  | 0 => ⟨fun _ => reject "", fun _ => reject "", reject ""⟩
  | n + 1 => above (level n)

/-- The commands of one line. -/
def line (below : Level) : Nat → Reader (List Command)
  | 0 => reject ""
  | fuel + 1 => do
    let (c, goesOn) ← item below
    match ← peek, goesOn with
    | [], _ => return [c]
    | '\n' :: _, _ => do
      newline below
      return [c]
    | _, false => unexpected true none
    | _, true => do
      skipBlanks
      match ← peek with
      | [] => return [c]
      | '\n' :: _ => do
        newline below
        return [c]
      | _ => return c :: (← line below fuel)

/-- The lines of a program, up to one that cannot be read. -/
def lines (below : Level) : Nat → ReaderState → Script
  | 0, s => ⟨[], none, s.documents⟩
  | fuel + 1, s =>
    match skipBlanks.run s with
    | .error error => ⟨[], some error, s.documents⟩
    | .ok (_, s) =>
      match s.rest with
      | [] => ⟨[], none, s.documents⟩
      | '\n' :: rest => lines below fuel { s with rest := rest }
      | rest =>
        match (line below (rest.length + 1)).run s with
        | .error error => ⟨[], some error, s.documents⟩
        | .ok (cs, s) =>
          let more := lines below fuel s
          { more with commands := .sequence cs :: more.commands }

end Reader

/-- The commands of a text. Zero bytes are passed over. -/
def Script.read (documents : Array Word) (text : Bytes) : Script :=
  let cs := charsOf (text.filter (· ≠ 0))
  Reader.lines (Reader.level (cs.length + 1)) (cs.length + 1)
    (ReaderState.start 1 cs documents)

end CompilerDriver.Shell
