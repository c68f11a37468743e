import CompilerDriver.Shell.Text

/-! Shell programs as data. -/
namespace CompilerDriver.Shell

/-- What an expansion gives in place of a parameter that has no value, or in place of one that
has. -/
inductive Fallback where
  | useWord
  | assignWord
  | failWithWord
  /-- The word stands for a parameter that has a value. -/
  | replaceByWord
  deriving DecidableEq, Repr

inductive RedirectKind where
  | read
  | write
  /-- Writes, even over a file that is protected against it. -/
  | overwrite
  | append
  | update
  /-- Stands for the stream behind another descriptor. -/
  | duplicate
  deriving DecidableEq, Repr

mutual

/-- A part of a word. -/
inductive Piece where
  | text (bytes : Bytes) (quoted : Bool)
  | parameter (name : Bytes) (change : Change) (quoted : Bool)
  /-- What a program writes. -/
  | output (program : Command) (quoted : Bool)
  | arithmetic (formula : List Piece) (quoted : Bool)
  /-- The home directory of a user; of the present one if no name is given. -/
  | home (user : Bytes)

/-- What is done to the value of a parameter. -/
inductive Change where
  | keep
  | length
  /-- With `orEmpty`, an empty value counts as none. -/
  | fallback (kind : Fallback) (orEmpty : Bool) (word : List Piece)
  | trim (fromEnd longest : Bool) (pattern : List Piece)
  /-- An expansion that makes no sense. -/
  | malformed

inductive Redirect where
  | file (descriptor : Nat) (kind : RedirectKind) (target : List Piece)
  /-- Input that stands in the program itself, by its number in the list of such texts. -/
  | document (descriptor index : Nat)

inductive Command where
  | nothing
  | simple (assignments : List (Bytes × List Piece)) (words : List (List Piece))
      (redirects : List Redirect)
  | sequence (commands : List Command)
  | background (body : Command)
  | andThen (first second : Command)
  | orElse (first second : Command)
  | negate (body : Command)
  | pipeline (commands : List Command)
  | group (body : Command) (redirects : List Redirect)
  | subshell (body : Command) (redirects : List Redirect)
  | choose (condition yes no : Command)
  /-- Repeats the body as long as the condition's success equals `expected`. -/
  | loop (expected : Bool) (condition body : Command)
  | each (name : Bytes) (words : List (List Piece)) (body : Command)
  | select (subject : List Piece) (clauses : List (List (List Piece) × Command))
  | define (name : Bytes) (body : Command)
  /-- A command on a line of its text, to which complaints refer. -/
  | placed (line : Nat) (body : Command)

end

abbrev Word := List Piece

/-- Where and why a text is no program. -/
structure SyntaxError where
  line : Nat
  message : String
  deriving DecidableEq, Repr

/-- The commands of a text, in order. A text that goes wrong somewhere is run up to there. -/
structure Script where
  commands : List Command
  error? : Option SyntaxError
  /-- The texts that stand in the program as input, those of earlier scripts first. -/
  documents : Array Word

end CompilerDriver.Shell
