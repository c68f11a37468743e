/-! Reading the parts of a TOML text that do not nest: blanks, comments, keys, strings, numbers and
dates. Each reader takes what it recognizes from the front of the text and returns the rest. -/
namespace CompilerDriver.Toml.Scan

abbrev Reader (α : Type) := List Char → Option (α × List Char)

def isBlank (c : Char) : Bool := c == ' ' || c == '\t'

/-- Control characters other than the tab are not allowed, whether in comments or in strings. -/
def isPrintable (c : Char) : Bool := c == '\t' || (' ' ≤ c && c ≠ '\x7f')

def blanks (cs : List Char) : List Char := cs.dropWhile isBlank

/-- The text after a given one. -/
def expect? : List Char → List Char → Option (List Char)
  | [], cs => some cs
  | w :: ws, c :: cs => if w = c then expect? ws cs else none
  | _ :: _, [] => none

def newline? : List Char → Option (List Char)
  | '\n' :: rest => some rest
  | '\r' :: '\n' :: rest => some rest
  | _ => none

def skipNewline (cs : List Char) : List Char := (newline? cs).getD cs

/-- A comment, if there is one; the line's end stays. -/
def comment (cs : List Char) : List Char :=
  match cs with
  | '#' :: rest => rest.dropWhile isPrintable
  | _ => cs

/-- The rest of a line on which nothing more may stand. -/
def lineEnd? (cs : List Char) : Option (List Char) :=
  match comment (blanks cs) with
  | [] => some []
  | rest => newline? rest

/-- Blanks, comments and line ends, as they may stand inside an array. -/
def filler : Nat → List Char → List Char
  | 0, cs => cs
  | fuel + 1, cs =>
    match blanks cs with
    | '#' :: rest =>
      match newline? (comment ('#' :: rest)) with
      | some rest => filler fuel rest
      | none => '#' :: rest
    | rest =>
      match newline? rest with
      | some rest => filler fuel rest
      | none => rest

/-- Blanks and line ends. -/
def emptyLines : Nat → List Char → List Char
  | 0, cs => cs
  | fuel + 1, cs =>
    match newline? (blanks cs) with
    | some rest => emptyLines fuel rest
    | none => blanks cs

/-! ### Strings -/

def hexDigit? (c : Char) : Option Nat :=
  if '0' ≤ c ∧ c ≤ '9' then some (c.toNat - 0x30)
  else if 'a' ≤ c ∧ c ≤ 'f' then some (c.toNat - 0x57)
  else if 'A' ≤ c ∧ c ≤ 'F' then some (c.toNat - 0x37)
  else none

/-- The character of a number that is no surrogate and not beyond the last code point. -/
def scalar? (n : Nat) : Option Char := if n.isValidChar then some (Char.ofNat n) else none

/-- A character given by a fixed number of hexadecimal digits. -/
def codePoint? (size : Nat) (cs : List Char) : Option (Char × List Char) := do
  let digits := cs.take size
  if digits.length < size then none
  else
    let values ← digits.mapM hexDigit?
    let c ← scalar? (values.foldl (fun n d => 16 * n + d) 0)
    return (c, cs.drop size)

/-- An escape sequence after its backslash. -/
def escape? : Reader Char
  | 'b' :: rest => some ('\x08', rest)
  | 't' :: rest => some ('\t', rest)
  | 'n' :: rest => some ('\n', rest)
  | 'f' :: rest => some ('\x0c', rest)
  | 'r' :: rest => some ('\r', rest)
  | '"' :: rest => some ('"', rest)
  | '\\' :: rest => some ('\\', rest)
  | 'u' :: rest => codePoint? 4 rest
  | 'U' :: rest => codePoint? 8 rest
  | _ => none

/-- The rest of a basic string. -/
def basicBody? : Nat → Reader (List Char)
  | 0, _ => none
  | fuel + 1, cs =>
    match cs with
    | '"' :: rest => some ([], rest)
    | '\\' :: rest => do
      let (c, rest) ← escape? rest
      let (text, rest) ← basicBody? fuel rest
      return (c :: text, rest)
    | c :: rest =>
      if isPrintable c then do
        let (text, rest) ← basicBody? fuel rest
        return (c :: text, rest)
      else none
    | [] => none

def literalBody? : Reader (List Char)
  | '\'' :: rest => some ([], rest)
  | c :: rest =>
    if isPrintable c then do
      let (text, rest) ← literalBody? rest
      return (c :: text, rest)
    else none
  | [] => none

/-- The text that a run of quotes inside a multi-line string stands for, and whether the string
ends with it. Up to two quotes may stand directly before the closing three. -/
def quoteRun? (size : Nat) : Option (Nat × Bool) :=
  if size < 3 then some (size, false)
  else if size < 6 then some (size - 3, true)
  else none

/-- After a backslash: the text after a line end and the empty lines that follow it. -/
def foldedLine? (cs : List Char) : Option (List Char) :=
  (newline? (blanks cs)).map fun rest => emptyLines rest.length rest

/-- The rest of a multi-line string, with or without escape sequences. -/
def multilineBody? (quote : Char) (escapes : Bool) : Nat → Reader (List Char)
  | 0, _ => none
  | fuel + 1, cs =>
    match cs with
    | [] => none
    | c :: rest =>
      if c = quote then do
        let size := (cs.takeWhile (· = quote)).length
        let rest := cs.dropWhile (· = quote)
        let (kept, closed) ← quoteRun? size
        if closed then return (List.replicate kept quote, rest)
        else
          let (text, rest) ← multilineBody? quote escapes fuel rest
          return (List.replicate kept quote ++ text, rest)
      else if escapes && c == '\\' then
        match foldedLine? rest with
        | some rest => multilineBody? quote escapes fuel rest
        | none => do
          let (c, rest) ← escape? rest
          let (text, rest) ← multilineBody? quote escapes fuel rest
          return (c :: text, rest)
      else if isPrintable c then do
        let (text, rest) ← multilineBody? quote escapes fuel rest
        return (c :: text, rest)
      else do
        let rest ← newline? cs
        let (text, rest) ← multilineBody? quote escapes fuel rest
        return ('\n' :: text, rest)

def multiline? (quote : Char) (escapes : Bool) (cs : List Char) :
    Option (List Char × List Char) :=
  let body := skipNewline cs
  multilineBody? quote escapes (body.length + 1) body

/-- A string on one line, as keys are. -/
def lineString? : Reader (List Char)
  | '"' :: rest => basicBody? (rest.length + 1) rest
  | '\'' :: rest => literalBody? rest
  | _ => none

def string? : Reader (List Char)
  | '"' :: '"' :: '"' :: rest => multiline? '"' true rest
  | '\'' :: '\'' :: '\'' :: rest => multiline? '\'' false rest
  | cs => lineString? cs

/-! ### Keys -/

def isBareKey (c : Char) : Bool := c.isAlphanum || c == '_' || c == '-'

def keyPart? (cs : List Char) : Option (List Char × List Char) :=
  match lineString? cs with
  | some part => some part
  | none =>
    match cs.takeWhile isBareKey with
    | [] => none
    | part => some (part, cs.dropWhile isBareKey)

/-- Parts of a key allowed, and one more than the depth to which values may nest. -/
def depthLimit : Nat := 80

/-- The parts of a key, with blanks around each. -/
def keyParts? : Nat → Reader (List String)
  | 0, _ => none
  | fuel + 1, cs => do
    let (part, rest) ← keyPart? (blanks cs)
    match blanks rest with
    | '.' :: rest =>
      match keyParts? fuel rest with
      | some (parts, rest) => return (String.ofList part :: parts, rest)
      | none => none
    | rest => return ([String.ofList part], rest)

/-- A key: the parts before the last, and the last. -/
def key? (cs : List Char) : Option ((List String × String) × List Char) := do
  let (parts, rest) ← keyParts? cs.length cs
  let last ← parts.getLast?
  if parts.length < depthLimit then return ((parts.dropLast, last), rest) else none

/-! ### Numbers -/

/-- A run of digits, which single underscores may part. -/
def digits? (isDigit : Char → Bool) : Reader (List Char)
  | c :: '_' :: rest =>
    if isDigit c then do
      let (more, rest) ← digits? isDigit rest
      return (c :: more, rest)
    else none
  | c :: rest =>
    if isDigit c then
      match digits? isDigit rest with
      | some (more, rest) => some (c :: more, rest)
      | none => some ([c], rest)
    else none
  | [] => none

def value (base : Nat) (digits : List Char) : Nat :=
  digits.foldl (fun n c => base * n + (hexDigit? c).getD 0) 0

def sign : List Char → Bool × List Char
  | '-' :: rest => (true, rest)
  | '+' :: rest => (false, rest)
  | cs => (false, cs)

/-- The digits of a decimal integer. A zero stands alone. -/
def decimal? : Reader (List Char)
  | '0' :: rest => some (['0'], rest)
  | cs => digits? Char.isDigit cs

/-- Whether an integer fits into 64 bits. -/
def fits (i : Int) : Bool :=
  -9223372036854775808 ≤ i && i ≤ 9223372036854775807

def integerOfBase? (base : Nat) (isDigit : Char → Bool) (cs : List Char) :
    Option (Int × List Char) := do
  let (digits, rest) ← digits? isDigit cs
  let i : Int := value base digits
  if fits i then return (i, rest) else none

def integer? (cs : List Char) : Option (Int × List Char) :=
  match cs with
  | '0' :: 'x' :: rest => integerOfBase? 16 (fun c => (hexDigit? c).isSome) rest
  | '0' :: 'o' :: rest => integerOfBase? 8 (fun c => '0' ≤ c && c ≤ '7') rest
  | '0' :: 'b' :: rest => integerOfBase? 2 (fun c => c == '0' || c == '1') rest
  | _ => do
    let (negative, rest) := sign cs
    let (digits, rest) ← decimal? rest
    let i : Int := if negative then -(value 10 digits : Int) else value 10 digits
    if fits i then return (i, rest) else none

/-- Whether `mantissa * 10 ^ exponent` is rounded to infinity as a binary number of 64 bits. -/
def overflows (mantissa : Nat) (exponent : Int) : Bool :=
  if mantissa = 0 then false
  else
    let size : Int := (toString mantissa).length + exponent
    let bound := Nat.pow 2 1024 - Nat.pow 2 970
    if size < 309 then false
    else if 310 < size then true
    else if 0 ≤ exponent then bound ≤ mantissa * Nat.pow 10 exponent.toNat
    else bound * Nat.pow 10 (-exponent).toNat ≤ mantissa

/-- The exponent of a number. -/
def exponent? (cs : List Char) : Option (Int × List Char) :=
  match cs with
  | c :: rest =>
    if c == 'e' || c == 'E' then do
      let (negative, rest) := sign rest
      let (digits, rest) ← digits? Char.isDigit rest
      return (if negative then -(value 10 digits : Int) else value 10 digits, rest)
    else none
  | [] => none

/-- The end of a number after its fraction. An exponent that begins must be complete. -/
def afterFraction? (cs : List Char) : Option (Int × List Char) :=
  match cs with
  | c :: _ => if c == 'e' || c == 'E' then exponent? cs else some (0, cs)
  | [] => some (0, [])

/-- A number with a fraction or an exponent. A positive one must not be too large. -/
def decimalFloat? (cs : List Char) : Option (String × List Char) := do
  let (negative, rest) := sign cs
  let (whole, rest) ← decimal? rest
  let (fraction, exponent, rest) ←
    match rest with
    | '.' :: rest => do
      let (fraction, rest) ← digits? Char.isDigit rest
      let (exponent, rest) ← afterFraction? rest
      some (fraction, exponent, rest)
    | rest => do
      let (exponent, rest) ← exponent? rest
      some ([], exponent, rest)
  if !negative && overflows (value 10 (whole ++ fraction)) (exponent - fraction.length) then none
  else return (String.ofList (cs.take (cs.length - rest.length)), rest)

def float? (cs : List Char) : Option (String × List Char) :=
  match decimalFloat? cs with
  | some found => some found
  | none =>
    match (sign cs).2 with
    | 'i' :: 'n' :: 'f' :: rest => some (String.ofList (cs.take (cs.length - rest.length)), rest)
    | 'n' :: 'a' :: 'n' :: rest => some (String.ofList (cs.take (cs.length - rest.length)), rest)
    | _ => none

/-! ### Dates and times -/

/-- A number of fixed width within bounds. -/
def field? (size low high : Nat) (cs : List Char) : Option (Nat × List Char) :=
  let digits := cs.take size
  if digits.length = size ∧ digits.all Char.isDigit ∧ low ≤ value 10 digits ∧
      value 10 digits ≤ high then
    some (value 10 digits, cs.drop size)
  else none

def daysIn (year month : Nat) : Nat :=
  if month = 2 then
    if year % 4 = 0 ∧ (year % 100 ≠ 0 ∨ year % 400 = 0) then 29 else 28
  else if month = 4 ∨ month = 6 ∨ month = 9 ∨ month = 11 then 30
  else 31

/-- The text after a calendar date. -/
def date? (cs : List Char) : Option (List Char) := do
  let (year, cs) ← field? 4 0 9999 cs
  let cs ← expect? ['-'] cs
  let (month, cs) ← field? 2 1 12 cs
  let cs ← expect? ['-'] cs
  let (_, cs) ← field? 2 1 (daysIn year month) cs
  return cs

/-- The text after a time of day. The last minute of a day may have a leap second. -/
def time? (cs : List Char) : Option (List Char) := do
  let (_, cs) ← field? 2 0 23 cs
  let cs ← expect? [':'] cs
  let (_, cs) ← field? 2 0 59 cs
  let cs ← expect? [':'] cs
  let (_, cs) ← field? 2 0 60 cs
  match cs with
  | '.' :: c :: rest => if c.isDigit then return rest.dropWhile Char.isDigit else return cs
  | _ => return cs

/-- The text after the offset of a time zone, if there is one. -/
def offset (cs : List Char) : List Char :=
  match cs with
  | c :: rest =>
    if c == 'Z' || c == 'z' then rest
    else if c == '+' || c == '-' then
      (do
        let (_, rest) ← field? 2 0 23 rest
        let rest ← expect? [':'] rest
        let (_, rest) ← field? 2 0 59 rest
        return rest).getD cs
    else cs
  | [] => []

/-- A date, a time, or a date and a time. -/
def datetime? (cs : List Char) : Option (String × List Char) :=
  let rest : Option (List Char) :=
    match date? cs with
    | some rest =>
      match rest with
      | c :: later =>
        if c == 'T' || c == 't' || c == ' ' then some ((time? later).elim rest offset)
        else some rest
      | [] => some []
    | none => time? cs
  rest.map fun rest => (String.ofList (cs.take (cs.length - rest.length)), rest)

end CompilerDriver.Toml.Scan
