import CompilerDriver.Shell.Program

/-! What is read of a shell program so far, what comes next, and how a text goes wrong. -/
namespace CompilerDriver.Shell

/-- A text that is announced, and stands after the end of the line. -/
structure Announced where
  index : Nat
  mark : List Char
  expands : Bool
  dropsTabs : Bool

structure ReaderState where
  rest : List Char
  /-- The number of the line on which the text ends. -/
  lastLine : Nat
  announced : List Announced := []
  documents : Array Word := #[]

/-- The state before a text is read that starts on some line. -/
def ReaderState.start (firstLine : Nat) (text : List Char) (documents : Array Word) :
    ReaderState :=
  { rest := text, lastLine := firstLine + text.count '\n', documents := documents }

abbrev Reader := StateT ReaderState (Except SyntaxError)

namespace Reader

def peek : Reader (List Char) := return (← get).rest

def setRest (rest : List Char) : Reader Unit := modify ({ · with rest := rest })

/-- The number of the line that comes next. -/
def lineHere : Reader Nat := do
  let s ← get
  return s.lastLine - s.rest.count '\n'

/-- Runs a reader on a text of its own, which starts on some line. -/
def within {α : Type} (firstLine : Nat) (text : List Char) (reader : Reader α) : Reader α := do
  let outer ← get
  set (ReaderState.start firstLine text outer.documents)
  let a ← reader
  modify fun inner => { outer with documents := inner.documents }
  return a

/-- Characters that end a word unless they are quoted. -/
def endsWord (c : Char) : Bool := isBlank c || "\n;&|<>()".toList.contains c

def isSpecialParameter (c : Char) : Bool := "@*#?$!-".toList.contains c

def keywords : List String :=
  ["!", "\x7b", "\x7d", "case", "do", "done", "elif", "else", "esac", "fi", "for", "if", "in",
   "then", "until", "while"]

/-- Keywords that end a list of commands. -/
def closers : List String := ["\x7d", "do", "done", "elif", "else", "esac", "fi", "then"]

/-- Operators, longer ones before those they begin with. -/
def operators : List String := [";;", "&&", "||", ";", "&", "|", "(", ")"]

def skipBlanksIn : List Char → List Char
  | '\\' :: '\n' :: rest => skipBlanksIn rest
  | c :: rest => if isBlank c then skipBlanksIn rest else c :: rest
  | [] => []

/-- Goes on to the next character that matters between words. -/
def skipBlanks : Reader Unit := do
  let rest := skipBlanksIn (← peek)
  setRest (if rest.head? = some '#' then rest.dropWhile (· ≠ '\n') else rest)

/-- The keyword that comes next, where one may stand. -/
def keyword? : Reader (Option String) := do
  skipBlanks
  let rest ← peek
  return keywords.find? fun k => rest.takeWhile (!endsWord ·) = k.toList

/-- What comes next, as it is called in a complaint. A keyword counts only where one may stand. -/
def nextName (mayBeKeyword : Bool) : Reader String := do
  let inQuotes (name : String) : String := "\"" ++ name ++ "\""
  let keyword? ← keyword?
  let rest ← peek
  match rest, if mayBeKeyword then keyword? else none with
  | _, some keyword => return inQuotes keyword
  | [], _ => return "end of file"
  | '\n' :: _, _ => return "newline"
  | rest, none =>
    match operators.find? fun o => o.toList.isPrefixOf rest with
    | some operator => return inQuotes operator
    | none =>
      let opens (c : Char) : Bool := c == '<' || c == '>'
      let isRedirection := opens (rest.headD ' ')
        || (rest.headD ' ').isDigit && opens ((rest.drop 1).headD ' ')
      return if isRedirection then "redirection" else "word"

/-- Says that the text goes wrong here. -/
def reject {α : Type} (message : String) : Reader α := do
  throw ⟨← lineHere, message⟩

/-- Says that what comes next cannot stand here, and what is expected instead if that is known. -/
def unexpected {α : Type} (mayBeKeyword : Bool) (expected : Option String) : Reader α := do
  let name ← nextName mayBeKeyword
  if name = "newline" then setRest ((← peek).drop 1)
  let hint := expected.elim "" fun e => " (expecting " ++ e ++ ")"
  reject (name ++ " unexpected" ++ hint)

def takeKeyword (k : String) : Reader Bool := do
  if (← keyword?) = some k then
    setRest ((← peek).drop k.length)
    return true
  else return false

/-- Takes a keyword that has to come next. -/
def expect (k : String) : Reader Unit := do
  if !(← takeKeyword k) then unexpected true (some ("\"" ++ k ++ "\""))

/-- Takes a closing parenthesis that has to come next. -/
def expectClosing (mayBeKeyword : Bool) : Reader Unit := do
  skipBlanks
  match ← peek with
  | ')' :: rest => setRest rest
  | _ => unexpected mayBeKeyword (some "\")\"")

end Reader

end CompilerDriver.Shell
