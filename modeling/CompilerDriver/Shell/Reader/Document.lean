import CompilerDriver.Shell.Reader.Word

/-! Reading texts that stand in a program as input. Such a text is announced within a line, and
stands after the end of that line. -/
namespace CompilerDriver.Shell

namespace Reader

/-- The text that ends an announced text, and whether none of it is quoted. -/
def markOf : List Char → List Char × Bool × List Char
  | '\'' :: rest =>
    ((rest.takeWhile (· ≠ '\'')), false, (rest.dropWhile (· ≠ '\'')).drop 1)
  | '"' :: rest => ((rest.takeWhile (· ≠ '"')), false, (rest.dropWhile (· ≠ '"')).drop 1)
  | '\\' :: c :: rest => ([c], false, rest)
  | c :: rest => ([c], true, rest)
  | [] => ([], true, [])

def wholeMark : Nat → List Char → List Char × Bool × List Char
  | 0, cs => ([], true, cs)
  | fuel + 1, cs =>
    if cs = [] ∨ cs.head?.any endsWord then ([], true, cs)
    else
      let (first, plain, rest) := markOf cs
      let (more, morePlain, rest) := wholeMark fuel rest
      (first ++ more, plain && morePlain, rest)

/-- Announces a text that follows the line. -/
def announce (dropsTabs : Bool) : Reader Nat := do
  skipBlanks
  let rest ← peek
  if rest = [] ∨ rest.head?.any endsWord then unexpected false none
  let (mark, expands, rest) := wholeMark (rest.length + 1) rest
  let s ← get
  let index := s.documents.size
  set { s with
    rest := rest
    announced := s.announced ++ [Announced.mk index mark expands dropsTabs]
    documents := s.documents.push [] }
  return index

/-- One line with its end, and what follows it. Where the text is expanded, a backslash joins the
next line to it. -/
def takeLine (expands : Bool) : List Char → List Char × List Char
  | [] => ([], [])
  | '\n' :: rest => (['\n'], rest)
  | '\\' :: c :: rest =>
    if expands then
      let (line, after) := takeLine expands rest
      ('\\' :: c :: line, after)
    else
      let (line, after) := takeLine expands (c :: rest)
      ('\\' :: line, after)
  | c :: rest =>
    let (line, after) := takeLine expands rest
    (c :: line, after)

/-- The lines up to the one that holds the mark alone, and what follows it. -/
def takeDocument (a : Announced) : Nat → List Char → List Char × List Char
  | 0, cs => ([], cs)
  | _, [] => ([], [])
  | fuel + 1, cs =>
    let cs := if a.dropsTabs then cs.dropWhile (· == '\t') else cs
    let (line, rest) := takeLine a.expands cs
    if line = a.mark ++ ['\n'] ∨ line = a.mark then ([], rest)
    else
      let (lines, rest) := takeDocument a fuel rest
      (line ++ lines, rest)

/-- Reads the announced texts at the end of a line. -/
def readDocuments (below : Level) : List Announced → Reader Unit
  | [] => return
  | a :: more => do
    let firstLine ← lineHere
    let rest ← peek
    let (text, rest) := takeDocument a (rest.length + 1) rest
    setRest rest
    let w ← if a.expands then within firstLine text (below.word .document)
      else pure [.text (bytesOfChars text) true]
    modify fun s => { s with documents := s.documents.set! a.index w }
    readDocuments below more

/-- Reads the end of a line. -/
def newline (below : Level) : Reader Unit := do
  setRest ((← peek).drop 1)
  let announced := (← get).announced
  modify ({ · with announced := [] })
  readDocuments below announced

def skipNewlinesWithin (below : Level) : Nat → Reader Unit
  | 0 => return
  | fuel + 1 => do
    skipBlanks
    if (← peek).head? = some '\n' then
      newline below
      skipNewlinesWithin below fuel

def skipNewlines (below : Level) : Reader Unit := do
  skipNewlinesWithin below ((← peek).length + 1)

end Reader

end CompilerDriver.Shell
