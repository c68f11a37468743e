import CompilerDriver.Shell.Arithmetic
import CompilerDriver.Shell.Pattern
import CompilerDriver.Shell.State

/-! Expanding words: to one text, to a pattern, or to fields. Whoever expands a word says how the
output of a command in it is found. -/
namespace CompilerDriver.Shell

/-- An element of an expanded word. -/
inductive Item where
  /-- A character; one that `splits` separates fields if it is a separator. -/
  | glyph (glyph : Glyph) (splits : Bool)
  /-- Makes a field, even an empty one. -/
  | mark
  /-- Ends a field. -/
  | cut
  deriving DecidableEq, Repr

namespace Expansion

/-- The items of a value. Quoted, it is taken as it is. -/
def valueItems (quoted : Bool) (value : Bytes) : List Item :=
  (charsOf value).map fun c => .glyph ⟨c, quoted⟩ !quoted

def glyphsOf (items : List Item) : List Glyph :=
  items.filterMap fun
    | .glyph g _ => some g
    | _ => none

/-- What stands between arguments that are joined. -/
def joint (s : State) : Bytes :=
  match s.value? (bytesOf "IFS") with
  | some separators => separators.take 1
  | none => bytesOf " "

def isArgumentList (name : Bytes) : Bool := name = bytesOf "@" || name = bytesOf "*"

/-- The value of a parameter other than the list of arguments. -/
def scalar? (s : State) (name : Bytes) : Option Bytes :=
  match charsOf name with
  | ['#'] => some (bytesOfNat s.args.length)
  | ['?'] => some (bytesOfNat s.status)
  | ['$'] => some (bytesOfNat s.number)
  | ['!'] => s.lastStarted.map bytesOfNat
  | ['-'] => some (bytesOfChars (optionLetters.filter s.has))
  | cs =>
    if cs.head?.any Char.isDigit then
      match valueOfDigits 10 cs with
      | 0 => some s.name
      | n + 1 => s.args[n]?
    else s.value? name

/-- The items of a parameter, if it has a value. `alter` is applied to each text in it. -/
def parameterItems? (s : State) (full quoted : Bool) (name : Bytes) (alter : Bytes → Bytes) :
    Option (List Item) :=
  if isArgumentList name then
    let args := s.args.map alter
    if full && (!quoted || name = bytesOf "@") then
      some ((args.map fun arg =>
        (if quoted then [.mark] else []) ++ valueItems quoted arg).intersperse [.cut]).flatten
    else some (valueItems quoted (joined (joint s) args))
  else (scalar? s name).map fun value => valueItems quoted (alter value)

/-- The home directory of a user: the sixth field of the user's line in the list of accounts. -/
def homeOf? (s : State) (user : Bytes) : Option Bytes :=
  if user = [] then s.value? (bytesOf "HOME")
  else
    let accounts := (s.world.fs.read (.ofString "/etc/passwd")).toOption.getD []
    ((accounts.splitOn 0x0A).map (·.splitOn 0x3A)).findSome? fun account =>
      if account.head? = some user then account[5]? else none

/-- The value of a variable in a formula. A blank one counts as zero. -/
def numberOf (s : State) (name : Bytes) : Except FormulaError Int :=
  let value := (s.value? name).getD []
  match takeNumber true (charsOf value) with
  | some (i, rest) =>
    if rest.all isSpace ∧ smallestInteger ≤ i ∧ i ≤ largestInteger then .ok i
    else .error (.noNumber value)
  | none => if (charsOf value).all isSpace then .ok 0 else .error (.noNumber value)

/-- What is said about a formula without a value. -/
def complaintOf (formula : Bytes) : FormulaError → Bytes
  | .expectsPrimary => Complaint.badFormula "expecting primary" formula
  | .expectsClosing => Complaint.badFormula "expecting ')'" formula
  | .expectsColon => Complaint.badFormula "expecting ':'" formula
  | .expectsEnd => Complaint.badFormula "expecting EOF" formula
  | .divisionByZero => Complaint.badFormula "division by zero" formula
  | .noNumber text => Complaint.illegalNumber text

/-- Evaluates the text of a formula, with the assignments in it. -/
def calculate (text : Bytes) : Run Int := do
  let s ← get
  let evaluated : Except FormulaError (Int × List (Bytes × Int)) := do
    let (formula, isWhole) ← Formula.read text
    let found ← (formula.evaluate (numberOf s)).run []
    if isWhole then return found else .error .expectsEnd
  match evaluated with
  | .error error => fail (complaintOf text error)
  | .ok (value, assigned) => do
    for (name, i) in assigned.reverse do
      assign name (bytesOf (toString i))
    return value

variable (capture : Command → Run Bytes)

/-- The items of a word, with fuel for each part of it. With `full` the word is meant for fields;
`splits` says whether the text of the word itself is split as values are. -/
def items : Nat → (full splits : Bool) → Word → Run (List Item)
  | 0, _, _, _ => throw .exhausted
  | _, _, _, [] => return []
  | fuel + 1, full, splits, piece :: rest => do
    let here ← match piece with
      | .text bytes quoted =>
        let glyphs := (charsOf bytes).map fun c => Item.glyph ⟨c, quoted⟩ (splits && !quoted)
        pure (if quoted then .mark :: glyphs else glyphs)
      | .output program quoted =>
        pure (valueItems quoted (trimNewlines ((← capture program).filter (· ≠ 0))))
      | .arithmetic formula quoted => do
        let text := Glyph.textOf (glyphsOf (← items fuel false false formula))
        pure (valueItems quoted (bytesOf (toString (← calculate text))))
      | .home user => do
        pure (valueItems true ((homeOf? (← get) user).getD (bytesOf "~" ++ user)))
      | .parameter name change quoted => do
        let s ← get
        let found? := parameterItems? s full quoted name id
        let needed : Run (List Item) := do
          if s.has 'u' ∧ found? = none then fail (Complaint.notSet name false)
          return found?.getD []
        match change with
        | .malformed => fail Complaint.badSubstitution
        | .keep => needed
        | .length => do
          let _ ← needed
          let joined := (parameterItems? s false quoted name id).getD []
          pure (valueItems quoted (bytesOfNat joined.length))
        | .trim fromEnd longest pattern => do
          let _ ← needed
          let p := Pattern.ofGlyphs (glyphsOf (← items fuel false false pattern))
          let alter (value : Bytes) : Bytes := bytesOfChars (p.trim fromEnd longest (charsOf value))
          pure ((parameterItems? s full quoted name alter).getD [])
        | .fallback kind orEmpty word => do
          let isAbsent := found? = none ∨ (orEmpty ∧ glyphsOf (found?.getD []) = [])
          match kind with
          | .useWord =>
            if isAbsent then items fuel full (!quoted) word else pure (found?.getD [])
          | .replaceByWord =>
            if isAbsent then pure [] else items fuel full (!quoted) word
          | .failWithWord => do
            if isAbsent then
              let text := Glyph.textOf (glyphsOf (← items fuel false false word))
              fail (if word = [] then Complaint.notSet name orEmpty
                else name ++ bytesOf ": " ++ text)
            pure (found?.getD [])
          | .assignWord => do
            if isAbsent then
              let value := Glyph.textOf (glyphsOf (← items fuel false false word))
              if !isName (charsOf name) then fail (Complaint.badName name)
              assign name value
              pure (valueItems quoted value)
            else pure (found?.getD [])
    return here ++ (← items fuel full splits rest)

/-- Fields under construction. -/
structure Splitting where
  done : List (List Glyph) := []
  current : List Glyph := []
  /-- Whether the current field is there even if it is empty. -/
  isThere : Bool := false
  /-- Whether blanks have ended a field, so that one more separator ends no other. -/
  afterBlank : Bool := false

namespace Splitting

def finish (s : Splitting) (afterBlank : Bool) : Splitting :=
  ⟨s.done ++ [s.current], [], false, afterBlank⟩

def add (separators : Bytes) (s : Splitting) : Item → Splitting
  | .mark => { s with isThere := true, afterBlank := false }
  | .cut => if s.isThere then s.finish true else s
  | .glyph g splits =>
    if splits && (charsOf separators).contains g.char then
      if g.char == '\n' || isBlank g.char then if s.isThere then s.finish true else s
      else if s.isThere || !s.afterBlank then s.finish false
      else { s with afterBlank := false }
    else { s with current := s.current ++ [g], isThere := true, afterBlank := false }

end Splitting

/-- The fields of expanded items. -/
def split (separators : Bytes) (items : List Item) : List (List Glyph) :=
  let s := items.foldl (Splitting.add separators) {}
  if s.isThere then s.done ++ [s.current] else s.done

/-- A name pattern in parts, between which separators stand. -/
def components (gs : List Glyph) : List (List Glyph) :=
  gs.foldr (fun g parts =>
    if g.char == '/' then [] :: parts
    else match parts with
      | part :: rest => (g :: part) :: rest
      | [] => [[g]]) [[]]

/-- The names in a directory that a pattern chooses, in order. Hidden ones must be named by a
dot. -/
def matchingNames (fs : FileSystem) (dir : Bytes) (part : List Glyph) : List Bytes :=
  let pattern := Pattern.ofGlyphs part
  let hidden := part.head?.any fun g => g.char == '.'
  match fs.find ⟨if dir = [] then bytesOf "." else dir⟩ with
  | .ok (loc, .directory) =>
    let names := (if hidden then [bytesOf ".", bytesOf ".."] else []) ++ fs.names loc
    (names.filter fun name =>
      (hidden || name.head? ≠ some Path.dot) && pattern.isMatch (charsOf name)).mergeSort
        fun a b => !precedes b a
  | _ => []

/-- The existing paths that a pattern chooses below a path that ends in a separator. -/
def matchingPaths (fs : FileSystem) : Bytes → List (List Glyph) → List Bytes
  | dir, [] => if fs.contains ⟨dir⟩ then [dir] else []
  | dir, [part] =>
    if Pattern.isActive part then (matchingNames fs dir part).map (dir ++ ·)
    else
      let path := dir ++ Glyph.textOf part
      if fs.contains ⟨path⟩ then [path] else []
  | dir, part :: rest =>
    let slash := bytesOf "/"
    if Pattern.isActive part then
      (matchingNames fs dir part).flatMap fun name => matchingPaths fs (dir ++ name ++ slash) rest
    else matchingPaths fs (dir ++ Glyph.textOf part ++ slash) rest

/-- The texts that a field stands for: the paths it chooses, or itself if there are none. -/
def generated (s : State) (field : List Glyph) : List Bytes :=
  let itself := Glyph.textOf field
  if Pattern.isActive field && !s.has 'f' then
    match matchingPaths s.world.fs [] (components field) with
    | [] => [itself]
    | paths => paths
  else [itself]

/-- Fuel for one word. -/
def itemLimit : Nat := 100000

/-- The fields of a word. -/
def fields (w : Word) : Run (List Bytes) := do
  let found ← items capture itemLimit true false w
  let s ← get
  return (split s.separators found).flatMap (generated s)

/-- The fields of several words, each expanded after the one before it. -/
def allFields : List Word → Run (List Bytes)
  | [] => return []
  | w :: rest => do return (← fields capture w) ++ (← allFields rest)

/-- A word as one text. -/
def text (w : Word) : Run Bytes := do
  return Glyph.textOf (glyphsOf (← items capture itemLimit false false w))

def pattern (w : Word) : Run Pattern := do
  return Pattern.ofGlyphs (glyphsOf (← items capture itemLimit false false w))

end Expansion

end CompilerDriver.Shell
