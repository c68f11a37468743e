import CompilerDriver.Path
import CompilerDriver.Stage
import CompilerDriver.SystemError

/-! Why a run fails. Each error is a cause; its wording and the phase it is counted to are
functions of the cause. -/
namespace CompilerDriver

/-- The phase an error belongs to: planning, assembling the actions, or running them. -/
inductive ErrorCategory where
  | configuration
  | construction
  | execution
  deriving DecidableEq, Repr

inductive PipelineError where
  | noInputFiles
  | outputWithoutInput (pipeline : Pipeline)
  | missingOutput (pipeline : Pipeline)
  | databaseRequired
  | multipleInputsWithoutLink (pipeline : Pipeline)
  | intermediateAfterLink
  | invalidActionArguments (kind expected : String) (found : Nat)
  | missingConfig (kind what : String)
  | unrecognizedInputFormat (path : Path) (pipeline : Pipeline) (stage : Stage)
  | noOutputAssigned (unit : String)
  | noInputAssigned (unit : String)
  | stageOrdering (stage : Stage)
  | subcommandFailed (kind command : String)
  | spawn (program : String) (source : SystemError)
  | tempArtifact (source : SystemError)
  deriving DecidableEq, Repr

namespace PipelineError

def category : PipelineError → ErrorCategory
  | noInputFiles | outputWithoutInput _ | missingOutput _ | databaseRequired
  | multipleInputsWithoutLink _ | intermediateAfterLink => .configuration
  | invalidActionArguments .. | missingConfig .. | unrecognizedInputFormat ..
  | noOutputAssigned _ | noInputAssigned _ | stageOrdering _ | tempArtifact _ => .construction
  | subcommandFailed .. | spawn .. => .execution

def message : PipelineError → String
  | noInputFiles => "No input files"
  | outputWithoutInput p =>
    "Can't produce " ++ p.name ++ " output without " ++ p.name ++ " input files"
  | missingOutput p => "No output file for " ++ p.name ++ " pipeline specified"
  | databaseRequired => "Analysis/transformation passes require a database file"
  | multipleInputsWithoutLink p =>
    "Multiple input files for " ++ p.name ++ " pipeline not valid without linking stage"
  | intermediateAfterLink => "Can't emit intermediate form after linking"
  | invalidActionArguments kind expected found =>
    "Invalid action arguments for '" ++ kind ++ "': expected " ++ expected ++ ", got "
      ++ toString found ++ " unit(s)"
  | missingConfig kind what =>
    "Action '" ++ kind ++ "' requires " ++ what ++ ", which is not configured"
  | unrecognizedInputFormat path p stage =>
    "Unknown file format of '" ++ path.display ++ "' at " ++ stage.name ++ " stage of "
      ++ p.name ++ " pipeline"
  | noOutputAssigned unit => "No output file assigned for unit '" ++ unit ++ "'"
  | noInputAssigned unit => "No input file assigned for unit '" ++ unit ++ "'"
  | stageOrdering stage => stage.name ++ " stage must be the last active stage when enabled"
  | subcommandFailed _ command => "Subcommand failed: " ++ command
  | spawn program source => "Failed to launch '" ++ program ++ "': " ++ source.text
  | tempArtifact source => "Failed to allocate temporary artifact: " ++ source.text

end PipelineError

end CompilerDriver
