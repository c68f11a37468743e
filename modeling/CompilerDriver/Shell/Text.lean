import CompilerDriver.Utf8

/-! Texts as the shell sees them: bytes, which are read as if each were a character. -/
namespace CompilerDriver.Shell

def charsOf (bs : Bytes) : List Char := bs.map fun b => Char.ofNat b.toNat

def bytesOfChars (cs : List Char) : Bytes := cs.map fun c => c.toNat.toUInt8

def bytesOf (s : String) : Bytes := bytesOfChars s.toList

def isBlank (c : Char) : Bool := c == ' ' || c == '\t'

def isSpace (c : Char) : Bool := isBlank c || ('\n' ≤ c && c ≤ '\r')

def isNameStart (c : Char) : Bool := c.isAlpha || c == '_'

def isNameChar (c : Char) : Bool := isNameStart c || c.isDigit

def isName (cs : List Char) : Bool :=
  match cs with
  | c :: _ => isNameStart c && cs.all isNameChar
  | [] => false

/-- The name that opens a text, and what follows it. -/
def takeName (cs : List Char) : List Char × List Char :=
  match cs with
  | c :: _ => if isNameStart c then (cs.takeWhile isNameChar, cs.dropWhile isNameChar) else ([], cs)
  | [] => ([], [])

/-- The value of a digit in some base up to sixteen. -/
def digitValue (c : Char) : Nat :=
  if c.isDigit then c.toNat - '0'.toNat
  else if 'a' ≤ c && c ≤ 'f' then c.toNat - 'a'.toNat + 10
  else if 'A' ≤ c && c ≤ 'F' then c.toNat - 'A'.toNat + 10
  else 16

def isOctalDigit (c : Char) : Bool := '0' ≤ c && c ≤ '7'

def valueOfDigits (base : Nat) (cs : List Char) : Nat :=
  cs.foldl (fun n c => base * n + digitValue c) 0

def smallestInteger : Int := -9223372036854775808

def largestInteger : Int := 9223372036854775807

/-- The nearest integer that fits into a machine word. -/
def saturate (i : Int) : Int := max smallestInteger (min largestInteger i)

/-- The integer that a machine word is left with. -/
def wrap (i : Int) : Int := Int.bmod i 18446744073709551616

/-- The longest unsigned number that opens a text. A leading `0x` or `0` sets the base where the
base is open. -/
def takeDigits (anyBase : Bool) (cs : List Char) : Option (Nat × List Char) :=
  let digits (base : Nat) (cs : List Char) : List Char × List Char :=
    (cs.takeWhile (digitValue · < base), cs.dropWhile (digitValue · < base))
  let inBase (base : Nat) (cs : List Char) : Option (Nat × List Char) :=
    match digits base cs with
    | ([], _) => none
    | (ds, rest) => some (valueOfDigits base ds, rest)
  match anyBase, cs with
  | true, '0' :: x :: rest =>
    if x == 'x' || x == 'X' then (inBase 16 rest).or (some (0, x :: rest)) else inBase 8 cs
  | _, _ => inBase 10 cs

/-- The longest number that opens a text, after blanks and with a sign. -/
def takeNumber (anyBase : Bool) (cs : List Char) : Option (Int × List Char) :=
  match cs.dropWhile isSpace with
  | '-' :: rest => (takeDigits anyBase rest).map fun (n, rest) => (-(n : Int), rest)
  | '+' :: rest => (takeDigits anyBase rest).map fun (n, rest) => ((n : Int), rest)
  | rest => (takeDigits anyBase rest).map fun (n, rest) => ((n : Int), rest)

/-- A whole text as a decimal integer, if it fits into a machine word. -/
def integer? (bs : Bytes) : Option Int :=
  match takeNumber false (charsOf bs) with
  | some (i, rest) =>
    if rest.all isSpace ∧ smallestInteger ≤ i ∧ i ≤ largestInteger then some i else none
  | none => none

/-- A whole text as a count, such as an exit status. -/
def count? (bs : Bytes) : Option Nat :=
  match integer? bs with
  | some (.ofNat n) => if n ≤ 2147483647 then some n else none
  | _ => none

def bytesOfNat (n : Nat) : Bytes := bytesOf (toString n)

/-- Texts put one after another, with another text between each two. -/
def joined (between : Bytes) (parts : List Bytes) : Bytes := (parts.intersperse between).flatten

/-- The order of texts by their bytes. -/
def precedes : Bytes → Bytes → Bool
  | [], b => !b.isEmpty
  | _ :: _, [] => false
  | x :: xs, y :: ys => x < y || (x == y && precedes xs ys)

def trimNewlines (bs : Bytes) : Bytes := (bs.reverse.dropWhile (· = 0x0A)).reverse

end CompilerDriver.Shell
