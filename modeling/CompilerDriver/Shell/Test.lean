import CompilerDriver.FileSystem
import CompilerDriver.Shell.Complaint

/-! The test command: what its operands say about texts, numbers and files. -/
namespace CompilerDriver.Shell

/-- Why operands have no answer. -/
inductive TestError where
  | noNumber (operand : Bytes)
  | expectsOperand (operator : Bytes)
  | expectsOperator (operand : Bytes)
  | notClosed
  | noBracket
  deriving DecidableEq, Repr

def TestError.message : TestError → Bytes
  | noNumber operand => Complaint.illegalNumber operand
  | expectsOperand operator => Complaint.about operator "argument expected"
  | expectsOperator operand => Complaint.about operand "unexpected operator"
  | notClosed => bytesOf "closing paren expected"
  | noBracket => bytesOf "missing ]"

namespace Test

abbrev Answer := Except TestError

def unaryOperators : List String :=
  ["-r", "-w", "-x", "-e", "-f", "-d", "-c", "-b", "-p", "-u", "-g", "-k", "-s", "-t", "-z", "-n",
   "-h", "-L", "-S", "-O", "-G"]

def binaryOperators : List String :=
  ["=", "!=", "<", ">", "-eq", "-ne", "-gt", "-ge", "-lt", "-le", "-nt", "-ot", "-ef"]

def isUnary (operand : Bytes) : Bool := unaryOperators.any (bytesOf · = operand)

def isBinary (operand : Bytes) : Bool := binaryOperators.any (bytesOf · = operand)

def number (operand : Bytes) : Answer Int :=
  (integer? operand).elim (.error (.noNumber operand)) .ok

def unary (fs : FileSystem) (operator operand : Bytes) : Answer Bool :=
  let path : Path := ⟨operand⟩
  match Utf8.lossy operator with
  | "-n" => .ok (operand ≠ [])
  | "-z" => .ok (operand = [])
  | "-e" | "-r" | "-w" | "-O" | "-G" => .ok (fs.contains path)
  | "-f" => .ok (fs.isFile path)
  | "-d" => .ok (fs.isDirectory path)
  | "-x" => .ok (fs.isExecutable path || fs.isDirectory path)
  | "-c" => .ok (fs.contains path && !fs.isFile path && !fs.isDirectory path)
  | "-s" => .ok (fs.isDirectory path || (fs.read path).toOption.any (!·.isEmpty))
  | "-t" => (number operand).map fun _ => false
  | _ => .ok false

def binary (fs : FileSystem) (left operator right : Bytes) : Answer Bool :=
  let compared (holds : Int → Int → Bool) : Answer Bool := do
    return holds (← number left) (← number right)
  match Utf8.lossy operator with
  | "=" => .ok (left = right)
  | "!=" => .ok (left ≠ right)
  | "<" => .ok (precedes left right)
  | ">" => .ok (precedes right left)
  | "-eq" => compared (· == ·)
  | "-ne" => compared (· != ·)
  | "-lt" => compared (· < ·)
  | "-le" => compared (· ≤ ·)
  | "-gt" => compared (· > ·)
  | "-ge" => compared (· ≥ ·)
  | "-nt" => .ok (fs.contains ⟨left⟩ && !fs.contains ⟨right⟩)
  | "-ot" => .ok (fs.contains ⟨right⟩ && !fs.contains ⟨left⟩)
  | "-ef" =>
    match fs.find ⟨left⟩, fs.find ⟨right⟩ with
    | .ok (a, _), .ok (b, _) => .ok (a = b)
    | _, _ => .ok false
  | _ => .error (.expectsOperator operator)

inductive Token where
  | ending
  | operand
  | unary
  | binary
  | negation
  | both
  | either
  | opening
  | closing
  deriving DecidableEq, Repr

/-- What the first of some words is. An operator with nothing to act on is an operand. -/
def token (words : List Bytes) : Token :=
  match words with
  | [] => .ending
  | w :: rest =>
    let isOperand : Bool :=
      match rest with
      | [] => true
      | [_] => false
      | next :: _ => isBinary next
    if isUnary w then if isOperand then .operand else .unary
    else if isBinary w then .binary
    else match Utf8.lossy w with
      | "!" => .negation
      | "-a" => .both
      | "-o" => .either
      | "(" => if rest = [] then .operand else .opening
      | ")" => .closing
      | _ => .operand

/-- An answer, and the words after those that it is about. -/
abbrev Reading := Answer (Bool × List Bytes)

/-- The word before the end of some words, of which others are left. -/
def lastOf (words rest : List Bytes) : Bytes :=
  ((words.take (words.length - rest.length)).getLast?).getD []

def primary (fs : FileSystem) (inner : List Bytes → Reading) (words : List Bytes) : Reading :=
  match token words, words with
  | .ending, _ => .ok (false, [])
  | .opening, _ :: rest =>
    if token rest = .closing then .ok (false, rest.drop 1)
    else match inner rest with
      | .ok (answer, rest) =>
        if token rest = .closing then .ok (answer, rest.drop 1) else .error .notClosed
      | .error error => .error error
  | .unary, operator :: operand :: rest =>
    (unary fs operator operand).map fun answer => (answer, rest)
  | .unary, _ => .error (.expectsOperand (words.headD []))
  | _, w :: rest =>
    if token rest = .binary then
      match rest with
      | operator :: right :: rest => (binary fs w operator right).map fun answer => (answer, rest)
      | _ => .error (.expectsOperand (rest.headD []))
    else .ok (w ≠ [], rest)
  | _, [] => .ok (false, [])

def negations (fs : FileSystem) (inner : List Bytes → Reading) : Nat → List Bytes → Reading
  | 0, _ => .error .notClosed
  | fuel + 1, words =>
    match token words, words with
    | .negation, [_] => .ok (true, [])
    | .negation, _ :: rest =>
      (negations fs inner fuel rest).map fun (answer, rest) => (!answer, rest)
    | _, _ => primary fs inner words

/-- Answers joined by an operator. Every part is answered. -/
def connected (next : List Bytes → Reading) (joint : Token) (join : Bool → Bool → Bool) :
    Nat → List Bytes → Reading
  | 0, _ => .error .notClosed
  | fuel + 1, words => do
    let (answer, rest) ← next words
    if token rest = joint then
      (connected next joint join fuel (rest.drop 1)).map fun (other, rest) =>
        (join answer other, rest)
    else return (answer, rest)

/-- An expression within a number of levels of parentheses. -/
def expression (fs : FileSystem) : Nat → List Bytes → Reading
  | 0, _ => .error .notClosed
  | levels + 1, words =>
    let part := negations fs (expression fs levels) (words.length + 1)
    let conjunction := connected part .both (· && ·) (words.length + 1)
    connected conjunction .either (· || ·) (words.length + 1) words

def whole (fs : FileSystem) (words : List Bytes) : Answer Bool := do
  let (answer, rest) ← expression fs (words.length + 1) words
  if rest = [] then return answer else .error (.expectsOperator (lastOf words rest))

/-- Up to four operands are read by their number first, so that operators can be operands. -/
def answer : Nat → FileSystem → List Bytes → Answer Bool
  | 0, _, _ => .error .notClosed
  | fuel + 1, fs, words =>
    let isBang (w : Bytes) : Bool := w = bytesOf "!"
    let isEnclosed : Bool :=
      words.head? = some (bytesOf "(") ∧ words.getLast? = some (bytesOf ")")
    let byNumber : Answer Bool :=
      match words with
      | first :: rest =>
        if isEnclosed then whole fs (words.drop 1).dropLast
        else if isBang first then (answer fuel fs rest).map (!·)
        else whole fs words
      | [] => .ok false
    match words with
    | [] => .ok false
    | [a, operator, b] => if isBinary operator then binary fs a operator b else byNumber
    | [_, _, _, _] => byNumber
    | _ => whole fs words

/-- What the operands of the command say. In brackets they need the closing one. -/
def verdict (fs : FileSystem) (isBracketed : Bool) (words : List Bytes) : Answer Bool :=
  if isBracketed then
    if words.getLast?.any fun last => last.head? = some 0x5D then
      answer words.length fs words.dropLast
    else .error .noBracket
  else answer (words.length + 1) fs words

/-- The status of the command. -/
def status : Answer Bool → Nat
  | .ok true => 0
  | .ok false => 1
  | .error _ => 2

end Test

end CompilerDriver.Shell
