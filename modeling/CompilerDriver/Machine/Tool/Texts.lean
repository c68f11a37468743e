import CompilerDriver.Machine.Tool.Basic
import CompilerDriver.Shell.Print

/-! Programs that write texts: those of files, or those in their operands. -/
namespace CompilerDriver.Machine

open CompilerDriver.Shell (bytesOf charsOf bytesOfChars)

namespace Tool

/-! ### Texts of files -/

/-- The text of a file, or the input. -/
def textOf (r : Request) (fs : FileSystem) (operand : Bytes) : Except SystemError Bytes :=
  if operand = bytesOf "-" then .ok r.input else fs.read ⟨operand⟩

/-- The operands, or the input if there are none. -/
def sources (g : Given) : List Bytes := if g.operands = [] then [bytesOf "-"] else g.operands

def notRead (operand : Bytes) (error : SystemError) : Bytes :=
  shownPath operand ++ bytesOf (": " ++ error.description)

/-- Writes something for each of some files that can be read. -/
def showEach (r : Request) (operands : List Bytes) (complaint : Bytes → SystemError → Bytes)
    (shown : Bytes → Bytes → Bytes) (fs : FileSystem) : Outcome :=
  operands.foldl (fun done operand =>
    match textOf r fs operand with
    | .ok text => done.say (shown operand text)
    | .error error => done.complain r 1 (complaint operand error)) { fs := fs }

/-- The lines of a text with their ends. -/
def lines : Bytes → List Bytes
  | [] => []
  | b :: rest =>
    if b = 0x0A then [b] :: lines rest
    else match lines rest with
      | line :: more => (b :: line) :: more
      | [] => [[b]]

/-- A byte as it is shown to the eye. Those above the first half are shown by the lower one. -/
def visible (b : UInt8) : Bytes :=
  let low (b : UInt8) : Bytes :=
    if b < 0x20 then [0x5E, b + 0x40] else if b = 0x7F then [0x5E, 0x3F] else [b]
  if b < 0x80 then low b else [0x4D, 0x2D] ++ low (b - 0x80)

/-- How lines are changed when they are shown. -/
structure LineStyle where
  isVisible : Bool
  showsTabs : Bool
  showsEnds : Bool
  isNumbered : Bool
  numbersBlank : Bool
  squeezes : Bool

namespace LineStyle

def shownLine (s : LineStyle) (line : Bytes) : Bytes :=
  line.flatMap fun b =>
    if b = 0x0A then (if s.showsEnds then [0x24, b] else [b])
    else if b = 0x09 then (if s.showsTabs then [0x5E, 0x49] else [b])
    else if s.isVisible then visible b else [b]

/-- Lines with their numbers. `blank` says that the line before was blank. -/
def numbered (s : LineStyle) (n : Nat) (blank : Bool) : List Bytes → Bytes
  | [] => []
  | line :: rest =>
    let isBlank := line = [0x0A]
    if s.squeezes && blank && isBlank then numbered s n true rest
    else if s.isNumbered && (s.numbersBlank || !isBlank) then
      let digits := bytesOf (toString n)
      List.replicate (6 - digits.length) 0x20 ++ digits ++ 0x09 :: s.shownLine line
        ++ numbered s (n + 1) isBlank rest
    else s.shownLine line ++ numbered s n isBlank rest

end LineStyle

/-- Lines are numbered through all files, which is why the numbers used so far are counted. -/
def concatenate : Tool :=
  withOptions ⟨"AbeEnstTuv", "", [("number", 'n'), ("show-all", 'A'), ("show-ends", 'E')]⟩ 1 true
    (fun r g fs =>
      let s : LineStyle :=
        { isVisible := g.has "Aetv"
          showsTabs := g.has "AtT"
          showsEnds := g.has "AeE"
          isNumbered := g.has "bn"
          numbersBlank := !g.has "b"
          squeezes := g.has "s" }
      let isCounted (line : Bytes) : Bool := s.numbersBlank || line ≠ [0x0A]
      ((sources g).foldl (fun (done, n) operand =>
        match textOf r fs operand with
        | .ok text =>
          let found := lines text
          (done.say (s.numbered n false found), n + found.countP isCounted)
        | .error error => (done.complain r 1 (notRead operand error), n))
        (({ fs := fs } : Outcome), 1)).1)

/-- An option that is a number by itself says how many lines are meant. -/
def withCount (args : List Bytes) : List Bytes :=
  args.map fun arg =>
    match charsOf arg with
    | '-' :: c :: rest => if c.isDigit then bytesOfChars ('-' :: 'n' :: c :: rest) else arg
    | _ => arg

/-- What is said about a file of which a part cannot be shown. -/
def noPart (operand : Bytes) (error : SystemError) : Bytes :=
  if error = .isADirectory then problem "error reading " operand error
  else bytesOf "cannot open " ++ quoted operand
    ++ bytesOf (" for reading: " ++ error.description)

/-- A part of a text by its lines or bytes, as the options say. -/
def part (fromEnd : Bool) : Tool where
  readsInput := true
  run r fs :=
    let options : Options := ⟨"qv", "nc", [("lines", 'n'), ("bytes", 'c')]⟩
    match given options (r.args.length + 1) (withCount r.args) with
    | .error text => r.refused 1 text fs
    | .ok g =>
      let wanted := (g.value? 'c').or (g.value? 'n') |>.getD (bytesOf "10")
      let cut {α : Type} (items : List α) : List α :=
        let n := (Shell.integer? wanted).elim 0 Int.natAbs
        if fromEnd then
          if wanted.head? = some 0x2B then items.drop (n - 1) else items.drop (items.length - n)
        else if wanted.head? = some 0x2D then items.take (items.length - n)
        else items.take n
      let ofText (text : Bytes) : Bytes :=
        if (g.value? 'c').isSome then cut text else (cut (lines text)).flatten
      let isNamed := (1 < g.operands.length && !g.has "q") || g.has "v"
      let first := (sources g).headD []
      let heading (operand : Bytes) : Bytes :=
        if isNamed then
          (if operand = first then [] else [0x0A])
            ++ bytesOf "==> " ++ operand ++ bytesOf " <==\n" else []
      if (Shell.integer? wanted).isNone then
        let unit := if (g.value? 'c').isSome then "bytes" else "lines"
        Outcome.complain { fs := fs } r 1
          (bytesOf ("invalid number of " ++ unit ++ ": ") ++ quoted wanted)
      else
        showEach r (sources g) noPart (fun operand text => heading operand ++ ofText text) fs

/-- The parts of a text between which spaces stand. -/
def words (text : Bytes) : List (List Char) :=
  ((charsOf text).splitBy fun a b => !Shell.isSpace a && !Shell.isSpace b).filter
    fun w => !w.all Shell.isSpace

/-- The numbers of lines, words and bytes in texts, as far as they are asked for. -/
def numbersOf (g : Given) (texts : List Bytes) : List Nat :=
  let isWanted (letters : String) : Bool := g.options = [] || g.has letters
  (if isWanted "l" then [texts.flatten.count 0x0A] else [])
    ++ (if isWanted "w" then [(texts.flatMap words).length] else [])
    ++ (if isWanted "cm" then [texts.flatten.length] else [])

/-- Counts lines, words or bytes. Columns are as wide as the size of all files needs. -/
def count : Tool :=
  withOptions ⟨"clmw", "", [("lines", 'l'), ("words", 'w'), ("bytes", 'c')]⟩ 1 true
    (fun r g fs =>
      let found := (sources g).filterMap fun operand => (textOf r fs operand).toOption
      let size := (toString found.flatten.length).length
      let isSingle := (sources g).length = 1 ∧ (numbersOf g [[]]).length = 1
      let isOfInput := (sources g).all (· = bytesOf "-")
      let width := if isSingle then 1 else if isOfInput then 7 else size
      let line (texts : List Bytes) (name : Bytes) : Bytes :=
        let numbers := (numbersOf g texts).map fun n =>
          let digits := bytesOf (toString n)
          List.replicate (width - digits.length) 0x20 ++ digits
        Shell.joined (bytesOf " ") numbers ++ (if name = [] then [] else 0x20 :: name)
          ++ bytesOf "\n"
      let shown := showEach r (sources g) notRead (fun operand text =>
        line [text] (if g.operands = [] then [] else operand)) fs
      if 1 < (sources g).length then shown.say (line found (bytesOf "total")) else shown)

def tee : Tool :=
  withOptions ⟨"ai", "", [("append", 'a')]⟩ 1 true
    (fun r g fs =>
      let one (fs : FileSystem) (p : Path) : Change :=
        match if g.has "a" then fs.append p r.input else fs.write p r.input with
        | .ok fs => .ok (fs, [])
        | .error error => .error (notRead p.bytes error)
      (forEach r g.operands one fs).say r.input)

/-- Shows the place of the first byte in which two texts differ. -/
def compare : Tool :=
  withOptions ⟨"bls", "", [("quiet", 's'), ("silent", 's')]⟩ 2 true
    (fun r g fs =>
      let start : Outcome := { fs := fs }
      let failed (operand : Bytes) (error : SystemError) : Outcome :=
        if g.has "s" then { start with status := 2 }
        else start.complain r 2 (notRead operand error)
      match g.operands with
      | [] => start.complain r 2 (bytesOf "missing operand after " ++ quoted r.name)
      | left :: more =>
        let right := more.headD (bytesOf "-")
        match textOf r fs left, textOf r fs right with
        | .error error, _ => failed left error
        | _, .error error => failed right error
        | .ok a, .ok b =>
          let same := ((a.zip b).takeWhile fun (x, y) => x = y).map (·.1)
          let place := ": char " ++ toString (same.length + 1) ++ ", line "
            ++ toString (same.count 0x0A + 1)
          let isPart := same.length = min a.length b.length
          let o : Outcome := { fs := fs, status := if a = b then 0 else 1 }
          if g.has "s" || a = b then o
          else if isPart then
            let (name, short) := if a.length < b.length then (left, a) else (right, b)
            let where_ := if short = [] then " which is empty"
              else " after byte " ++ toString short.length
                ++ (if short.getLast? = some 0x0A then
                    ", line " ++ toString (short.count 0x0A)
                  else ", in line " ++ toString (short.count 0x0A + 1))
            { o with writes :=
                [(2, bytesOf "cmp: EOF on " ++ name ++ bytesOf (where_ ++ "\n"))] }
          else o.say (left ++ bytesOf " " ++ right ++ bytesOf (" differ" ++ place ++ "\n")))

/-! ### Words -/

/-- Text for the output, with a newline. -/
def print (text : Bytes) (fs : FileSystem) : Outcome :=
  Outcome.say { fs := fs } (text ++ bytesOf "\n")

/-- The last part of a path, without an ending that it should lose. -/
def baseName : Tool where
  run r fs :=
    let name (p : Bytes) : Bytes :=
      match (Path.mk p).pieces.getLast? with
      | some name => name
      | none => p.take 1
    match r.args with
    | [] => r.refused 1 missingOperand fs
    | [p] => print (name p) fs
    | [p, ending] =>
      let name := name p
      if name ≠ ending ∧ ending.isSuffixOf name then
        print (name.take (name.length - ending.length)) fs
      else print name fs
    | _ :: _ :: extra :: _ => r.refused 1 (bytesOf "extra operand " ++ quoted extra) fs

/-- The part of a path before its last part. -/
def dirOf (p : Bytes) : Bytes :=
  let trimmed (bs : Bytes) : Bytes := (bs.reverse.dropWhile (· = Path.slash)).reverse
  let above := trimmed ((trimmed p).reverse.dropWhile (· ≠ Path.slash)).reverse
  let absolute : Bytes := if p.head? = some Path.slash then [Path.slash] else [Path.dot]
  if above = [] then absolute else above

def dirName : Tool where
  run r fs :=
    match r.args with
    | [] => r.refused 1 missingOperand fs
    | ps => Outcome.say { fs := fs } (ps.flatMap fun p => dirOf p ++ bytesOf "\n")

/-- Operands with blanks between them. Words of option letters that come first say whether escapes
are replaced, and that no newline follows. -/
def echo : Tool where
  run r fs :=
    let isOption (word : Bytes) : Bool :=
      match charsOf word with
      | '-' :: c :: letters => (c :: letters).all "neE".toList.contains
      | _ => false
    let letters := ((r.args.takeWhile isOption).flatMap charsOf).filter (· != '-')
    let text := Shell.joined (bytesOf " ") (r.args.dropWhile isOption)
    let escapes := (letters.filter (· != 'n')).getLast? = some 'e'
    let (text, goesOn) := if escapes then Shell.Print.unescaped text else (text, true)
    let ending := if goesOn && !letters.contains 'n' then bytesOf "\n" else []
    Outcome.say { fs := fs } (text ++ ending)

def flawText : Shell.Print.Flaw → Bytes
  | .noNumber operand => quoted operand ++ bytesOf ": expected a numeric value"
  | .partNumber operand => quoted operand ++ bytesOf ": value not completely converted"
  | .tooGreat operand => quoted operand ++ bytesOf ": Numerical result out of range"
  | .unknownDirective text => text ++ bytesOf ": invalid conversion specification"
  | .endOfFormat => bytesOf "%: invalid conversion specification"

def printFormatted : Tool where
  run r fs :=
    match r.args.dropWhile (· = bytesOf "--") with
    | [] => r.refused 1 missingOperand fs
    | format :: operands =>
      let p := Shell.Print.formatted format operands
      let o := p.flaws.foldl (fun o flaw => Outcome.complain o r 1 (flawText flaw)) { fs := fs }
      o.say p.written

/-- Does nothing for some time, which is not told by a number and a unit. -/
def sleep : Tool where
  run r fs :=
    let isTime (word : Bytes) : Bool :=
      match (charsOf word).reverse with
      | c :: rest =>
        let number := if "smhd".toList.contains c then rest else c :: rest
        number ≠ [] && number.all (fun c => c.isDigit || c == '.')
      | [] => false
    match r.args, r.args.find? (!isTime ·) with
    | [], _ => r.refused 1 missingOperand fs
    | _, some word => r.refused 1 (bytesOf "invalid time interval " ++ quoted word) fs
    | _, none => { fs := fs }

def ending (status : Nat) : Tool where
  run _ fs := { fs := fs, status := status }

end Tool

end CompilerDriver.Machine
