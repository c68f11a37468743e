import CompilerDriver.Shell.Reader.Basic

/-! Reading words: quotes, expansions, and what is nested in them. -/
namespace CompilerDriver.Shell

namespace Reader

/-- Where a part of a word stands, which decides what is special there and where it ends. -/
inductive Place where
  | plain
  | braced
  | quoted
  | bracedInQuotes
  | document
  | arithmetic
  deriving DecidableEq, Repr

namespace Place

def isQuoted : Place → Bool
  | plain | braced => false
  | _ => true

/-- Characters that a backslash deprives of their meaning. Outside of quotes these are all. -/
def escapes (p : Place) (c : Char) : Bool :=
  match p with
  | plain | braced => true
  | quoted | arithmetic => "$\x60\"\\".toList.contains c
  | bracedInQuotes => "$\x60\"\\\x7d".toList.contains c
  | document => "$\x60\\".toList.contains c

end Place

/-- The readers of one level. What is nested in a construct is read one level below it, and each
level needs at least one character, so a text has fewer levels than characters. -/
structure Level where
  /-- The parts of a word up to its end; a closing character is read, too. -/
  word : Place → Reader Word
  /-- Commands up to what cannot open a command, newlines included. -/
  commands : (mayBeEmpty : Bool) → Reader Command
  command : Reader Command

/-- Parts of a word with a character added. -/
def addChar (quoted : Bool) (c : Char) (parts : Word) : Word :=
  match parts.getLast? with
  | some (.text bytes quotedBefore) =>
    if quoted = quotedBefore then parts.dropLast ++ [.text (bytes ++ bytesOfChars [c]) quoted]
    else parts ++ [.text (bytesOfChars [c]) quoted]
  | _ => parts ++ [.text (bytesOfChars [c]) quoted]

/-- Parts in double quotes. The quotes make a field even if nothing is in them, except around the
list of arguments alone. -/
def enclosed (parts : Word) : Word :=
  match parts with
  | [.parameter name .keep true] =>
    if name = bytesOf "@" then parts else .text [] true :: parts
  | _ => .text [] true :: parts

/-- The text of a command between backquotes, and what follows it. -/
def backquoted? (quoted : Bool) : List Char → Option (List Char × List Char)
  | '\x60' :: rest => some ([], rest)
  | '\\' :: '\n' :: rest => backquoted? quoted rest
  | '\\' :: c :: rest =>
    (backquoted? quoted rest).map fun (text, after) =>
      if "\\\x60$".toList.contains c || (quoted && c == '"') then (c :: text, after)
      else ('\\' :: c :: text, after)
  | c :: rest => (backquoted? quoted rest).map fun (text, after) => (c :: text, after)
  | [] => none

/-- The parameter that opens the inside of a braced expansion, and whether its length is meant. -/
def bracedParameter? (cs : List Char) : Option (List Char × Bool × List Char) :=
  let named (cs : List Char) : Option (List Char × List Char) :=
    match cs with
    | c :: _ =>
      if isNameStart c then some (takeName cs)
      else if c.isDigit then some (cs.takeWhile Char.isDigit, cs.dropWhile Char.isDigit)
      else none
    | [] => none
  match named cs, cs with
  | some (name, rest), _ => some (name, false, rest)
  | none, '#' :: rest =>
    match named rest, rest with
    | some (name, rest), _ => some (name, true, rest)
    | none, c :: '\x7d' :: _ =>
      if c == '\x7d' then some (['#'], false, rest)
      else if isSpecialParameter c then some ([c], true, rest.drop 1)
      else none
    | none, _ => some (['#'], false, rest)
  | none, c :: rest => if isSpecialParameter c then some ([c], false, rest) else none
  | none, [] => none

/-- Replaces each tilde that stands, with the name of a user after it, for a home directory. Such
a tilde opens a word, or a part of an assigned value between colons. -/
def withHome (assigned : Bool) (w : Word) : Word :=
  let endsName (c : Char) : Bool := c == '/' || (assigned && c == ':')
  let textOf (before : List Char) : Word :=
    if before = [] then [] else [.text (bytesOfChars before.reverse) false]
  let rec inText (isLast : Bool) (before : List Char) (opens : Bool) (skipped : Nat) :
      List Char → Word
    | [] => textOf before
    | c :: rest =>
      let user := rest.takeWhile (!endsName ·)
      match skipped with
      | n + 1 => inText isLast before opens n rest
      | 0 =>
        if c == '~' && opens && (isLast || user.length < rest.length) then
          textOf before ++ .home (bytesOfChars user) :: inText isLast [] false user.length rest
        else inText isLast (c :: before) (assigned && c == ':') 0 rest
  let rec inWord (opens : Bool) : Word → Word
    | [] => []
    | .text bytes false :: rest =>
      inText rest.isEmpty [] opens 0 (charsOf bytes) ++ inWord false rest
    | piece :: rest => piece :: inWord false rest
  inWord true w

/-- Says that a text ends inside a word. -/
def unclosed {α : Type} (place : Place) : Reader α :=
  match place with
  | .arithmetic => reject "Missing '))'"
  | .quoted | .bracedInQuotes => reject "Unterminated quoted string"
  | _ => reject "Missing '\x7d'"

/-- The rest of a braced expansion after its parameter. -/
def change (below : Level) (place : Place) (isLength : Bool) : Reader Change := do
  let alternative := if place.isQuoted then Place.bracedInQuotes else .braced
  let fallback? (c : Char) : Option Fallback :=
    match c with
    | '-' => some .useWord
    | '=' => some .assignWord
    | '?' => some .failWithWord
    | '+' => some .replaceByWord
    | _ => none
  let inner (place : Place) (rest : List Char) : Reader Word := do
    setRest rest
    let w ← below.word place
    return if place.isQuoted then w else withHome false w
  let malformed (rest : List Char) : Reader Change := do
    discard (inner alternative rest)
    return .malformed
  let trimmed (fromEnd longest : Bool) (rest : List Char) : Reader Change :=
    return .trim fromEnd longest (← inner .braced rest)
  match ← peek, isLength with
  | '\x7d' :: rest, _ => do
    setRest rest
    return if isLength then .length else .keep
  | rest, true => malformed rest
  | ':' :: '\x7d' :: rest, false => do
    discard (inner alternative rest)
    return .keep
  | '#' :: '#' :: rest, false => trimmed false true rest
  | '#' :: rest, false => trimmed false false rest
  | '%' :: '%' :: rest, false => trimmed true true rest
  | '%' :: rest, false => trimmed true false rest
  | ':' :: c :: rest, false =>
    match fallback? c with
    | some kind => return .fallback kind true (← inner alternative rest)
    | none => malformed (c :: rest)
  | c :: rest, false =>
    match fallback? c with
    | some kind => return .fallback kind false (← inner alternative rest)
    | none => malformed (c :: rest)
  | [], false => unclosed place

/-- Removes the line ends that are joined over while a name goes on. -/
def joinName : List Char → List Char
  | '\\' :: '\n' :: rest => joinName rest
  | c :: rest => if isNameChar c then c :: joinName rest else c :: rest
  | [] => []

/-- What a dollar sign stands for, together with what follows it. -/
def expansion (below : Level) (place : Place) : Reader Piece := do
  let quoted := place.isQuoted
  match joinName (← peek) with
  | '(' :: '(' :: rest => do
    setRest rest
    return .arithmetic (← below.word .arithmetic) quoted
  | '(' :: rest => do
    let announced := (← get).announced
    set { ← get with rest := rest, announced := [] }
    let program ← below.commands true
    expectClosing true
    modify ({ · with announced := announced })
    return .output program quoted
  | '\x7b' :: rest =>
    match bracedParameter? (joinName rest) with
    | some (name, isLength, rest) => do
      setRest rest
      return .parameter (bytesOfChars name) (← change below place isLength) quoted
    | none => do
      setRest rest
      discard (below.word (if quoted then .bracedInQuotes else .braced))
      return .parameter [] .malformed quoted
  | c :: rest =>
    if isSpecialParameter c || c.isDigit then do
      setRest rest
      return .parameter (bytesOfChars [c]) .keep quoted
    else if isNameStart c then do
      let (name, rest) := takeName (c :: rest)
      setRest rest
      return .parameter (bytesOfChars name) .keep quoted
    else return .text (bytesOf "$") quoted
  | [] => return .text (bytesOf "$") quoted

/-- The parts of a word in some place. `depth` counts the parentheses that are open in a
formula. -/
def parts (below : Level) (place : Place) : Nat → (depth : Nat) → Word → Reader Word
  | 0, _, _ => reject ""
  | fuel + 1, depth, done => do
    let quoted := place.isQuoted
    let goOn (rest : List Char) (done : Word) : Reader Word := do
      setRest rest
      parts below place fuel depth done
    match ← peek with
    | [] => if place = .plain ∨ place = .document then return done else unclosed place
    | '\\' :: '\n' :: rest => goOn rest done
    | '\\' :: c :: rest =>
      if place.escapes c then goOn rest (addChar true c done)
      else goOn rest (addChar true c (addChar true '\\' done))
    | '$' :: rest => do
      setRest rest
      let piece ← expansion below place
      parts below place fuel depth (done ++ [piece])
    | '\x60' :: rest => do
      match backquoted? quoted rest with
      | none => do
        setRest []
        reject "EOF in backquote substitution"
      | some (text, rest) => do
        let program ← within 1 text do
          let program ← below.commands true
          if (← nextName true) = "end of file" then return program else unexpected true none
        goOn rest (done ++ [.output program quoted])
    | c :: rest =>
      match place, c with
      | .plain, '\'' | .braced, '\'' =>
        match rest.dropWhile (· ≠ '\'') with
        | _ :: after =>
          goOn after (done ++ [.text (bytesOfChars (rest.takeWhile (· ≠ '\''))) true])
        | [] => do
          setRest []
          reject "Unterminated quoted string"
      | .plain, '"' | .braced, '"' => do
        setRest rest
        let inside ← below.word .quoted
        parts below place fuel depth (done ++ enclosed inside)
      | .bracedInQuotes, '"' => do
        setRest rest
        let inside ← below.word .quoted
        parts below place fuel depth (done ++ inside)
      | .quoted, '"' | .braced, '\x7d' | .bracedInQuotes, '\x7d' => do
        setRest rest
        return done
      | .arithmetic, '(' => do
        setRest rest
        parts below place fuel (depth + 1) (addChar true c done)
      | .arithmetic, ')' =>
        match depth, rest with
        | depth + 1, _ => do
          setRest rest
          parts below place fuel depth (addChar true c done)
        | 0, ')' :: rest => do
          setRest rest
          return done
        | 0, _ => goOn rest (addChar true c done)
      | .plain, _ => if endsWord c then return done else goOn rest (addChar false c done)
      | _, _ => goOn rest (addChar quoted c done)

/-- A word where one must stand. -/
def word (below : Level) (assigned : Bool) : Reader Word := do
  skipBlanks
  let rest ← peek
  if rest = [] ∨ rest.head?.any endsWord then unexpected false none
  return withHome assigned (← parts below .plain (rest.length + 1) 0 [])

end Reader

end CompilerDriver.Shell
