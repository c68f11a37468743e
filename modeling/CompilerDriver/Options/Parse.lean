import CompilerDriver.Options.Usage

/-! Reading a command line into occurrences of options. An option that waits for values keeps those
found so far aside; it is checked when the next option or the end of the line settles it. -/
namespace CompilerDriver

/-- Why the reading of a command line ends before its result. -/
inductive ParseStop where
  | help
  | version
  | usage (error : UsageError)
  deriving DecidableEq, Repr

/-- One use of an option, with the values it was given. -/
structure Occurrence where
  option : Opt
  values : List Bytes := []
  deriving DecidableEq, Repr

/-- A word of the command line, by its spelling. -/
inductive Spelling where
  /-- Two hyphens alone, after which no word is an option. -/
  | escape
  | long (name : Bytes) (attached : Option Bytes)
  | letters (ls : Bytes)
  | plain (word : Bytes)
  deriving DecidableEq, Repr

namespace Spelling

def hyphen : UInt8 := 0x2D

def equals : UInt8 := 0x3D

/-- The value attached to a long option begins after the first equals sign. A single hyphen is a
plain word. -/
def ofWord (w : Bytes) : Spelling :=
  match w with
  | 0x2D :: 0x2D :: [] => escape
  | 0x2D :: 0x2D :: rest =>
    match rest.dropWhile (· ≠ equals) with
    | _ :: value => long (rest.takeWhile (· ≠ equals)) (some value)
    | [] => long rest none
  | 0x2D :: b :: rest => letters (b :: rest)
  | _ => plain w

end Spelling

namespace ValueKind

/-- Whether a value of an option is of its kind. -/
def check (kind : ValueKind) (o : Opt) (value : Bytes) : Except ParseStop Unit :=
  match kind with
  | .path => if value = [] then .error (.usage (.missingValue o)) else .ok ()
  | .text => if (Utf8.decode? value).isSome then .ok () else .error (.usage .invalidText)
  | .choice names =>
    if names.any (Utf8.encode · == value) then .ok ()
    else .error (.usage (.invalidValue o (Utf8.lossy value)))

end ValueKind

namespace Opt

def ofName? (available : List Opt) (name : Bytes) : Option Opt :=
  available.find? fun o => o.names.any (Utf8.encode · == name)

def ofLetter? (available : List Opt) (letter : UInt8) : Option Opt :=
  available.find? fun o => o.letter?.map (·.toNat.toUInt8) == some letter

end Opt

/-- The occurrences that are settled, and the one that waits. -/
structure ParseState where
  found : List Occurrence := []
  pending : Option Occurrence := none
  deriving DecidableEq, Repr

namespace ParseState

/-- Adds a complete occurrence. A value that is missing is noticed first, then a repetition, then
values that do not fit. -/
def accept (found : List Occurrence) (o : Occurrence) : Except ParseStop (List Occurrence) := do
  if o.option.takesValue && o.values.isEmpty then
    throw (.usage (.missingValue o.option))
  if o.option = .help then throw .help
  if o.option = .version then throw .version
  if !o.option.isRepeatable && found.any (·.option = o.option) then
    throw (.usage (.argumentConflict o.option))
  match o.option.value? with
  | some kind => o.values.forM (kind.check o.option)
  | none => pure ()
  return found ++ [o]

/-- Settles the occurrence that waits. -/
def settle (s : ParseState) : Except ParseStop (List Occurrence) :=
  match s.pending with
  | some o => accept s.found o
  | none => .ok s.found

/-- An occurrence that is complete as it stands. -/
def complete (s : ParseState) (o : Occurrence) : Except ParseStop ParseState := do
  let found ← s.settle
  let found ← accept found o
  return { found := found }

/-- An occurrence whose values are still to come. -/
def await (s : ParseState) (o : Opt) : Except ParseStop ParseState := do
  let found ← s.settle
  return { found := found, pending := some ⟨o, []⟩ }

def unknown {α : Type} (word : String) : Except ParseStop α :=
  .error (.usage (.unknownArgument word))

def long (available : List Opt) (s : ParseState) (name : Bytes) (attached : Option Bytes) :
    Except ParseStop ParseState :=
  match Opt.ofName? available name with
  | none => unknown ("--" ++ Utf8.lossy name)
  | some o =>
    match attached with
    | some value =>
      if o.takesValue then s.complete ⟨o, [value]⟩
      else .error (.usage (.tooManyValues o (Utf8.lossy value)))
    | none => if o.takesValue then s.await o else s.complete ⟨o, []⟩

/-- Options by their letters. The first that takes a value takes the rest of the word. -/
def letters (available : List Opt) : Bytes → ParseState → Except ParseStop ParseState
  | [], s => .ok s
  | b :: rest, s =>
    match Opt.ofLetter? available b with
    | none => unknown (String.ofList ('-' :: (Utf8.lossy (b :: rest)).toList.take 1))
    | some o =>
      if o.takesValue then
        match rest with
        | [] => s.await o
        | c :: value => s.complete ⟨o, [if c = Spelling.equals then value else c :: value]⟩
      else do
        let s ← s.complete ⟨o, []⟩
        letters available rest s

/-- A word that is no option must be a value that is waited for. -/
def plain (s : ParseState) (word : Bytes) : Except ParseStop ParseState :=
  match s.pending with
  | some o =>
    if o.option.acceptsMore o.values.length then
      .ok { s with pending := some { o with values := o.values ++ [word] } }
    else unknown (Utf8.lossy word)
  | none => unknown (Utf8.lossy word)

end ParseState

/-- Reads the words that are left. -/
def parseWords (available : List Opt) : List Bytes → ParseState → Except ParseStop (List Occurrence)
  | [], s => s.settle
  | w :: rest, s =>
    match Spelling.ofWord w with
    | .escape =>
      match rest with
      | [] => s.settle
      | word :: _ => ParseState.unknown (Utf8.lossy word)
    | .long name attached => do parseWords available rest (← s.long available name attached)
    | .letters ls => do parseWords available rest (← s.letters available ls)
    | .plain word => do parseWords available rest (← s.plain word)

/-- The occurrences of the available options on a command line, in order. -/
def parseOptions (available : List Opt) (words : List Bytes) : Except ParseStop (List Occurrence) :=
  parseWords available words {}

end CompilerDriver
