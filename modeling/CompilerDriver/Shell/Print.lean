import CompilerDriver.Shell.Complaint

/-! What the printing commands write: operands with escapes, and operands under a format. -/
namespace CompilerDriver.Shell

namespace Print

def letterEscapes : List (Char × Char) :=
  [('\\', '\\'), ('a', '\x07'), ('b', '\x08'), ('e', '\x1b'), ('f', '\x0c'), ('n', '\n'),
   ('r', '\r'), ('t', '\t'), ('v', '\x0b')]

/-- The character that is meant after a backslash, and what follows it. A backslash before any
other character stands for itself. -/
def escaped (cs : List Char) : Char × List Char :=
  match cs with
  | c :: rest =>
    if isOctalDigit c then
      let digits := (cs.take 3).takeWhile isOctalDigit
      (Char.ofNat (valueOfDigits 8 digits % 256), cs.drop digits.length)
    else match letterEscapes.lookup c with
      | some d => (d, rest)
      | none => ('\\', cs)
  | [] => ('\\', [])

/-- An operand with its escapes replaced, and whether writing goes on after it. -/
def unescape : Nat → List Char → List Char × Bool
  | 0, _ => ([], true)
  | _, [] => ([], true)
  | fuel + 1, '\\' :: rest =>
    match rest with
    | 'c' :: _ => ([], false)
    | _ =>
      let rest := match rest with
        | '0' :: d :: more => if isOctalDigit d then d :: more else rest
        | _ => rest
      let (c, rest) := escaped rest
      let (more, goesOn) := unescape fuel rest
      (c :: more, goesOn)
  | fuel + 1, c :: rest =>
    let (more, goesOn) := unescape fuel rest
    (c :: more, goesOn)

def unescaped (bs : Bytes) : Bytes × Bool :=
  let (cs, goesOn) := unescape (bs.length + 1) (charsOf bs)
  (bytesOfChars cs, goesOn)

/-- Operands with blanks between them, and a newline at the end unless `-n` comes first. -/
def echo (operands : List Bytes) : Bytes :=
  let (operands, ending) : List Bytes × Bytes :=
    match operands with
    | first :: rest => if first = bytesOf "-n" then (rest, []) else (operands, bytesOf "\n")
    | [] => ([], bytesOf "\n")
  let (text, goesOn) := unescaped (joined (bytesOf " ") operands)
  if goesOn then text ++ ending else text

/-- How one operand is to be written. -/
structure Style where
  flags : List Char := []
  width : Nat := 0
  precision : Option Nat := none

namespace Style

def has (s : Style) (flag : Char) : Bool := s.flags.contains flag

/-- Fills up to the width, before the text or after it. -/
def pad (s : Style) (cs : List Char) : List Char :=
  let blanks := List.replicate (s.width - cs.length) ' '
  if s.has '-' then cs ++ blanks else blanks ++ cs

/-- A sign or a mark of the base, then digits. Zeros fill up inside, if they are asked for. -/
def number (s : Style) (mark digits : List Char) : List Char :=
  let digits := match s.precision with
    | some 0 => if digits = ['0'] then [] else digits
    | some p => List.replicate (p - digits.length) '0' ++ digits
    | none =>
      if s.has '0' && !s.has '-' then
        List.replicate (s.width - mark.length - digits.length) '0' ++ digits
      else digits
  s.pad (mark ++ digits)

end Style

/-- What is wrong with an operand or with the format. -/
inductive Flaw where
  | noNumber (operand : Bytes)
  | partNumber (operand : Bytes)
  | tooGreat (operand : Bytes)
  | unknownDirective (text : Bytes)
  | endOfFormat
  deriving DecidableEq, Repr

namespace Flaw

/-- Whether nothing is written after it. -/
def isFatal : Flaw → Bool
  | unknownDirective _ | endOfFormat => true
  | _ => false

def message : Flaw → Bytes
  | noNumber operand => Complaint.about operand "expected numeric value"
  | partNumber operand => Complaint.about operand "not completely converted"
  | tooGreat operand => Complaint.about operand "Numerical result out of range"
  | unknownDirective text => Complaint.about text "invalid directive"
  | endOfFormat => bytesOf "missing format character"

end Flaw

/-- What has become of the format so far. -/
structure Progress where
  text : List Char := []
  operands : List Bytes
  flaws : List Flaw := []
  /-- An operand or a flaw has ended the writing. -/
  isEnded : Bool := false

namespace Progress

def add (p : Progress) (cs : List Char) : Progress := { p with text := p.text ++ cs }

/-- The next operand, which is empty after the last. -/
def next (p : Progress) : Bytes × Progress :=
  (p.operands.headD [], { p with operands := p.operands.drop 1 })

def complain (p : Progress) (flaw : Flaw) : Progress :=
  { p with flaws := p.flaws ++ [flaw], isEnded := p.isEnded || flaw.isFatal }

/-- The next operand as a number. A quote stands before a character whose number is meant. -/
def nextNumber (p : Progress) (least greatest : Int) : Int × Progress :=
  let (operand, p) := p.next
  match charsOf operand with
  | '"' :: rest | '\'' :: rest => ((rest.head?.elim 0 fun c => (c.toNat : Int)), p)
  | [] => (0, p)
  | cs =>
    match takeNumber true cs with
    | none => (0, p.complain (.noNumber operand))
    | some (i, rest) =>
      let isTooBig := i < least ∨ greatest < i
      let p := if rest ≠ [] then p.complain (.partNumber operand)
        else if isTooBig then p.complain (.tooGreat operand) else p
      (max least (min greatest i), p)

end Progress

def decimalDigits (n : Nat) : List Char := (toString n).toList

def digitsIn (base : Nat) (n : Nat) : List Char := Nat.toDigits base n

def greatestWord : Int := 18446744073709551615

/-- A signed number with its sign. -/
def signed (s : Style) (i : Int) : List Char :=
  let mark := if i < 0 then ['-'] else if s.has '+' then ['+'] else if s.has ' ' then [' '] else []
  s.number mark (decimalDigits i.natAbs)

def unsigned (s : Style) (conversion : Char) (i : Int) : List Char :=
  let n := (i % (greatestWord + 1)).toNat
  match conversion with
  | 'o' =>
    let digits := digitsIn 8 n
    s.number [] (if s.has '#' ∧ digits.head? ≠ some '0' then '0' :: digits else digits)
  | 'x' => s.number (if s.has '#' ∧ n ≠ 0 then ['0', 'x'] else []) (digitsIn 16 n)
  | 'X' =>
    s.number (if s.has '#' ∧ n ≠ 0 then ['0', 'X'] else []) ((digitsIn 16 n).map Char.toUpper)
  | _ => s.number [] (decimalDigits n)

/-- Writes one operand. The directive is what the format says. -/
def convert (s : Style) (directive : List Char) (conversion : Char) (p : Progress) : Progress :=
  let shortened (cs : List Char) : List Char := s.precision.elim cs cs.take
  match conversion with
  | 's' =>
    let (operand, p) := p.next
    p.add (s.pad (shortened (charsOf operand)))
  | 'b' =>
    let (operand, p) := p.next
    let (text, goesOn) := unescaped operand
    { p.add (s.pad (shortened (charsOf text))) with isEnded := p.isEnded || !goesOn }
  | 'c' =>
    let (operand, p) := p.next
    p.add (s.pad [(charsOf operand).headD '\x00'])
  | 'd' | 'i' =>
    let (i, p) := p.nextNumber smallestInteger largestInteger
    p.add (signed s i)
  | 'o' | 'u' | 'x' | 'X' =>
    let (i, p) := p.nextNumber (-greatestWord) greatestWord
    p.add (unsigned s conversion i)
  | _ => p.complain (.unknownDirective (bytesOfChars directive))

/-- A width or precision, which may be an operand. -/
def measure (cs : List Char) (p : Progress) : Option Int × List Char × Progress :=
  match cs with
  | '*' :: rest =>
    let (i, p) := p.nextNumber smallestInteger largestInteger
    (some i, rest, p)
  | _ =>
    match cs.takeWhile Char.isDigit with
    | [] => (none, cs, p)
    | digits => (some (valueOfDigits 10 digits), cs.dropWhile Char.isDigit, p)

/-- Goes through the format once. -/
def pass : Nat → List Char → Progress → Progress
  | 0, _, p => p
  | _, [], p => p
  | fuel + 1, '\\' :: rest, p =>
    let (c, rest) := escaped rest
    pass fuel rest (p.add [c])
  | fuel + 1, '%' :: '%' :: rest, p => pass fuel rest (p.add ['%'])
  | fuel + 1, '%' :: opened, p =>
    let rest := opened
    let isFlag (c : Char) : Bool := "#-+ 0".toList.contains c
    let flags := rest.takeWhile isFlag
    let (width, rest, p) := measure (rest.dropWhile isFlag) p
    let flags := if width.any (· < 0) then '-' :: flags else flags
    let (precision, rest, p) : Option Int × List Char × Progress :=
      match rest with
      | '.' :: rest =>
        let (precision, rest, p) := measure rest p
        (some (precision.getD 0), rest, p)
      | _ => (none, rest, p)
    let style : Style :=
      { flags := flags
        width := (width.getD 0).natAbs
        precision := precision.bind fun i => if i < 0 then none else some i.toNat }
    match rest with
    | c :: rest =>
      let directive := '%' :: opened.take (opened.length - rest.length)
      let p := convert style directive c p
      if p.isEnded then p else pass fuel rest p
    | [] => p.complain .endOfFormat
  | fuel + 1, c :: rest, p => pass fuel rest (p.add [c])

/-- Goes through the format until the operands are used up. A format that uses none of them is
gone through once. -/
def passes (format : List Char) : Nat → Progress → Progress
  | 0, p => p
  | fuel + 1, p =>
    let after := pass (format.length + 1) format p
    let isDone := after.operands = [] ∨ after.operands.length = p.operands.length
    if after.isEnded ∨ isDone then after else passes format fuel after

/-- The operands under a format, as far as it makes sense. -/
def formatted (format : Bytes) (operands : List Bytes) : Progress :=
  passes (charsOf format) (operands.length + 1) { operands := operands }

namespace Progress

def written (p : Progress) : Bytes := bytesOfChars p.text

/-- The status of the command. -/
def status (p : Progress) : Nat :=
  if p.flaws.any Flaw.isFatal then 2 else if p.flaws ≠ [] then 1 else 0

end Progress

end Print

end CompilerDriver.Shell
