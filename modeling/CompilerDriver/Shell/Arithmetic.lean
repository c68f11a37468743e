import CompilerDriver.Shell.Text

/-! Formulas on machine integers. The part of a choice that is not taken has no effect. -/
namespace CompilerDriver.Shell

inductive Formula where
  | constant (value : Int)
  | named (name : Bytes)
  | applied (operator : String) (operand : Formula)
  | combined (operator : String) (left right : Formula)
  | conditional (condition yes no : Formula)
  | assign (name : Bytes) (operator : Option String) (value : Formula)
  deriving DecidableEq, Repr

/-- Why a formula has no value. -/
inductive FormulaError where
  | expectsPrimary
  | expectsClosing
  | expectsColon
  | expectsEnd
  | divisionByZero
  /-- The value of a variable is no number. -/
  | noNumber (text : Bytes)
  deriving DecidableEq, Repr

namespace Formula

inductive Token where
  | number (value : Int)
  | name (name : Bytes)
  | operator (text : String)
  /-- Text that has no place in a formula. -/
  | unknown
  deriving DecidableEq, Repr

/-- Operators, longer ones before those they begin with. -/
def operators : List String :=
  ["<<=", ">>=", "<<", ">>", "<=", ">=", "==", "!=", "&&", "||", "*=", "/=", "%=", "+=", "-=",
   "&=", "^=", "|=", "=", "<", ">", "+", "-", "*", "/", "%", "&", "^", "|", "!", "~", "?", ":",
   "(", ")"]

def tokens : Nat → List Char → List Token
  | 0, _ => []
  | _, [] => []
  | fuel + 1, c :: rest =>
    if isSpace c then tokens fuel rest
    else if c.isDigit then
      match takeDigits true (c :: rest) with
      | some (n, rest) => .number (saturate n) :: tokens fuel rest
      | none => [.unknown]
    else if isNameStart c then
      let (name, rest) := takeName (c :: rest)
      .name (bytesOfChars name) :: tokens fuel rest
    else
      match operators.find? fun o => o.toList.isPrefixOf (c :: rest) with
      | some o => .operator o :: tokens fuel ((c :: rest).drop o.length)
      | none => [.unknown]

abbrev Parser := List Token → Except FormulaError (Formula × List Token)

/-- Binary operators by how closely they bind, the loosest first. They group to the left. -/
def binaryOperators : List (List String) :=
  [["||"], ["&&"], ["|"], ["^"], ["&"], ["==", "!="], ["<", "<=", ">", ">="], ["<<", ">>"],
   ["+", "-"], ["*", "/", "%"]]

/-- Operators that assign, with what they do to the value there was. -/
def assignments : List (String × Option String) :=
  [("=", none), ("*=", some "*"), ("/=", some "/"), ("%=", some "%"), ("+=", some "+"),
   ("-=", some "-"), ("<<=", some "<<"), (">>=", some ">>"), ("&=", some "&"), ("^=", some "^"),
   ("|=", some "|")]

def operand (inner : Parser) : Parser
  | .number value :: rest => .ok (.constant value, rest)
  | .name name :: rest => .ok (.named name, rest)
  | .operator "(" :: rest => do
    match ← inner rest with
    | (f, .operator ")" :: rest) => .ok (f, rest)
    | _ => .error .expectsClosing
  | .operator o :: rest =>
    if ["+", "-", "!", "~"].contains o then
      (operand inner rest).map fun (f, rest) => (.applied o f, rest)
    else .error .expectsPrimary
  | .unknown :: _ | [] => .error .expectsPrimary

def chain (next : Parser) (group : List String) : Nat → Formula → Parser
  | fuel + 1, left, .operator o :: rest =>
    if group.contains o then do
      let (right, rest) ← next rest
      chain next group fuel (.combined o left right) rest
    else .ok (left, .operator o :: rest)
  | _, left, ts => .ok (left, ts)

def binary (inner : Parser) : List (List String) → Parser
  | [], ts => operand inner ts
  | group :: tighter, ts => do
    let (left, rest) ← binary inner tighter ts
    chain (binary inner tighter) group (rest.length + 1) left rest

/-- A choice, whose last part may be a choice in turn. -/
def choice (inner : Parser) : Nat → Parser
  | 0, _ => .error .expectsPrimary
  | fuel + 1, ts => do
    match ← binary inner binaryOperators ts with
    | (condition, .operator "?" :: rest) =>
      match ← inner rest with
      | (yes, .operator ":" :: rest) => do
        let (no, rest) ← choice inner fuel rest
        return (.conditional condition yes no, rest)
      | _ => .error .expectsColon
    | other => .ok other

/-- A formula within a number of levels. -/
def within : Nat → Parser
  | 0, _ => .error .expectsPrimary
  | levels + 1, .name name :: .operator o :: rest =>
    match assignments.lookup o with
    | some operator => do
      let (value, rest) ← within levels rest
      return (.assign name operator value, rest)
    | none => choice (within levels) (rest.length + 3) (.name name :: .operator o :: rest)
  | levels + 1, ts => choice (within levels) (ts.length + 1) ts

/-- The formula that opens a text, and whether the whole text is read. -/
def read (text : Bytes) : Except FormulaError (Formula × Bool) := do
  let cs := charsOf text
  let ts := tokens (cs.length + 1) cs
  let (f, rest) ← within (ts.length + 1) ts
  return (f, rest.isEmpty)

def ofBool (b : Bool) : Int := if b then 1 else 0

/-- A bitwise operation on two's complements. -/
def bitwise (f : Int64 → Int64 → Int64) (a b : Int) : Int := (f (.ofInt a) (.ofInt b)).toInt

/-- The distance of a shift is taken from the lowest six bits. -/
def distance (i : Int) : Nat := (i % 64).toNat

def power (n : Nat) : Int := (Nat.pow 2 n : Nat)

/-- The value of an operator that evaluates both sides. Nothing can be divided by zero. -/
def operate (operator : String) (a b : Int) : Except FormulaError Int :=
  match operator with
  | "+" => .ok (wrap (a + b))
  | "-" => .ok (wrap (a - b))
  | "*" => .ok (wrap (a * b))
  | "/" => if b = 0 then .error .divisionByZero else .ok (wrap (a.tdiv b))
  | "%" => if b = 0 then .error .divisionByZero else .ok (a.tmod b)
  | "<<" => .ok (wrap (a * power (distance b)))
  | ">>" => .ok (a.fdiv (power (distance b)))
  | "<" => .ok (ofBool (a < b))
  | "<=" => .ok (ofBool (a ≤ b))
  | ">" => .ok (ofBool (b < a))
  | ">=" => .ok (ofBool (b ≤ a))
  | "==" => .ok (ofBool (a = b))
  | "!=" => .ok (ofBool (a ≠ b))
  | "&" => .ok (bitwise (· &&& ·) a b)
  | "^" => .ok (bitwise (· ^^^ ·) a b)
  | "|" => .ok (bitwise (· ||| ·) a b)
  | _ => .error .expectsEnd

/-- The values of variables that have been assigned, over those there were. -/
abbrev Evaluation := StateT (List (Bytes × Int)) (Except FormulaError)

def valueOf (initial : Bytes → Except FormulaError Int) (name : Bytes) : Evaluation Int := do
  match (← get).lookup name with
  | some value => return value
  | none => initial name

/-- The value of a formula. `initial` gives the value of a variable, if that is a number. -/
def evaluate (initial : Bytes → Except FormulaError Int) : Formula → Evaluation Int
  | constant value => return value
  | named name => valueOf initial name
  | applied operator f => do
    let value ← evaluate initial f
    match operator with
    | "-" => return wrap (-value)
    | "!" => return ofBool (value = 0)
    | "~" => return -value - 1
    | _ => return value
  | combined operator f g => do
    let left ← evaluate initial f
    match operator with
    | "&&" => if left = 0 then return 0 else return ofBool ((← evaluate initial g) ≠ 0)
    | "||" => if left ≠ 0 then return 1 else return ofBool ((← evaluate initial g) ≠ 0)
    | _ => operate operator left (← evaluate initial g)
  | conditional condition yes no => do
    if (← evaluate initial condition) ≠ 0 then evaluate initial yes else evaluate initial no
  | assign name operator f => do
    let right ← evaluate initial f
    let value ← match operator with
      | none => pure right
      | some operator => do
        let left ← valueOf initial name
        operate operator left right
    modify fun assigned => (name, value) :: assigned.filter (·.1 ≠ name)
    return value

end Formula

end CompilerDriver.Shell
