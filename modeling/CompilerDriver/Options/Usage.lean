import CompilerDriver.Options.Spec

/-! How the command line is described, and what is said about one that makes no sense. -/
namespace CompilerDriver

inductive UsageError where
  | unknownArgument (word : String)
  | missingValue (option : Opt)
  | invalidValue (option : Opt) (value : String)
  | argumentConflict (option : Opt)
  | tooManyValues (option : Opt) (value : String)
  | invalidText
  deriving DecidableEq, Repr

def usageLine : String := "Usage: alleycatcc [OPTIONS]"

/-- The spellings of every option. -/
def optionsText : String :=
  let spellings (o : Opt) : String :=
    ", ".intercalate ((o.letter?.map fun c => "-" ++ c.toString).toList ++ o.names.map ("--" ++ ·))
  usageLine ++ "\n\nOptions:\n" ++ String.join (Opt.all.map fun o => "  " ++ spellings o ++ "\n")

namespace UsageError

/-- The names that a value may have, on a line of their own. -/
def choicesOf (o : Opt) : String :=
  match o.value? with
  | some (.choice names) => "\n  [possible values: " ++ ", ".intercalate names ++ "]"
  | _ => ""

def message : UsageError → String
  | unknownArgument word => "unexpected argument '" ++ word ++ "' found"
  | missingValue o =>
    "a value is required for '" ++ o.shown ++ "' but none was supplied" ++ choicesOf o
  | invalidValue o value => "invalid value '" ++ value ++ "' for '" ++ o.shown ++ "'" ++ choicesOf o
  | argumentConflict o => "the argument '" ++ o.shown ++ "' cannot be used multiple times"
  | tooManyValues o value =>
    "unexpected value '" ++ value ++ "' for '" ++ o.shown ++ "' found; no more were expected"
  | invalidText => "invalid UTF-8 was detected in one or more arguments"

/-- Whether the error is about the command line as a whole and not about one value. -/
def showsUsage : UsageError → Bool
  | missingValue _ | invalidValue .. => false
  | unknownArgument _ | argumentConflict _ | tooManyValues .. | invalidText => true

/-- Everything that is shown about the error. -/
def text (e : UsageError) : String :=
  "error: " ++ e.message ++ "\n\n" ++ (if e.showsUsage then usageLine ++ "\n\n" else "")
    ++ "For more information, try '--help'.\n"

end UsageError

end CompilerDriver
