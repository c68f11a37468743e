import CompilerDriver.Error

/-! Errors as they are reported to the user: with a code, and with advice on what to check. -/
namespace CompilerDriver

/-- Why a session fails, once its command line makes sense. -/
inductive SessionError where
  | pipeline (error : PipelineError)
  | io (error : SystemError)
  | settings (text : String)
  | invalidInput (text : String)
  deriving DecidableEq, Repr

inductive DiagnosticKind where
  | configuration
  | construction
  | execution
  | input
  | settingsFile
  deriving DecidableEq, Repr

structure Diagnostic where
  kind : DiagnosticKind
  text : String
  deriving DecidableEq, Repr

namespace DiagnosticKind

def code : DiagnosticKind → String
  | configuration => "alleycat::configuration"
  | construction => "alleycat::construction"
  | execution => "alleycat::execution"
  | input => "alleycat::input"
  | settingsFile => "alleycat::config_file"

def help : DiagnosticKind → String
  | configuration =>
    "Check the input/output files and stage flags; run with --help for usage"
  | construction =>
    "Inputs must be .cl, .cc, .cpp, .ll or .bc files appropriate for their pipeline"
  | execution => "Re-run with -v to see each stage, or --dry-run to print the commands"
  | input => "Check that every input file exists"
  | settingsFile => "Check alleycat.toml for correct syntax and values"

def ofCategory : ErrorCategory → DiagnosticKind
  | .configuration => configuration
  | .construction => construction
  | .execution => execution

end DiagnosticKind

namespace SessionError

def message : SessionError → String
  | pipeline error => error.message
  | io error => "IO error: " ++ error.text
  | settings text => "Configuration error: " ++ text
  | invalidInput text => "Invalid input: " ++ text

def diagnosticKind? : SessionError → Option DiagnosticKind
  | pipeline error => some (.ofCategory error.category)
  | io _ => none
  | settings _ => some .settingsFile
  | invalidInput _ => some .input

/-- The diagnostic of an error. Errors of the system have none. -/
def diagnostic? (e : SessionError) : Option Diagnostic :=
  e.diagnosticKind?.map fun kind => ⟨kind, e.message⟩

end SessionError

end CompilerDriver
