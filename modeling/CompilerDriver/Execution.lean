import CompilerDriver.Runner
import CompilerDriver.StageActions

/-! Running the actions. An action asks its runner at most once and remembers the outcome; the
stages run in order and stop at the first failure. -/
namespace CompilerDriver

inductive RunMode where
  | execute
  | dryRun
  deriving DecidableEq, Repr

namespace RunMode

def ofDryRun (dry : Bool) : RunMode := if dry then .dryRun else .execute

end RunMode

namespace Action

def spawnError (a : Action) (source : SystemError) : PipelineError :=
  .spawn a.command.program.display source

def subcommandFailed (a : Action) : PipelineError :=
  .subcommandFailed a.kind.name a.command.display

/-- The outcome of an action that has run. -/
def recorded? (a : Action) : Option (Except PipelineError Bool) :=
  match a.result, a.launchError with
  | .notRun, _ => none
  | .succeeded, _ => some (.ok true)
  | .failed, none => some (.ok false)
  | .failed, some source => some (.error (a.spawnError source))

/-- The action after an answer of its runner. -/
def afterReply (a : Action) : Except SystemError Bool → Action
  | .ok true => { a with result := .succeeded }
  | .ok false => { a with result := .failed }
  | .error source => { a with result := .failed, launchError := some source.recorded }

/-- Runs the command, unless it has run already. A dry run echoes it and counts as success. -/
def run (a : Action) (runner : Runner) (mode : RunMode) (s : RunnerState) :
    Except PipelineError Bool × Action × RunnerState :=
  match a.recorded? with
  | some outcome => (outcome, a, s)
  | none =>
    match mode with
    | .dryRun => (.ok true, a.afterReply (.ok true), s.echo a.command)
    | .execute =>
      let (status, s') := s.invoke runner a.command
      (status.mapError a.spawnError, a.afterReply status, s')

@[simp] theorem command_afterReply (a : Action) (status : Except SystemError Bool) :
    (a.afterReply status).command = a.command := by
  rcases status with _ | _ | _ <;> rfl

end Action

namespace StageActions

/-- Runs a list until an action does not succeed, and counts the successes. -/
def runList (runner : Runner) (mode : RunMode) :
    List Action → RunnerState → Except PipelineError Nat × List Action × RunnerState
  | [], s => (.ok 0, [], s)
  | a :: rest, s =>
    match a.run runner mode s with
    | (.ok true, a', s') =>
      let (outcome, rest', s'') := runList runner mode rest s'
      (outcome.map (· + 1), a' :: rest', s'')
    | (.ok false, a', s') => (.error a.subcommandFailed, a' :: rest, s')
    | (.error error, a', s') => (.error error, a' :: rest, s')

def runStages (runner : Runner) (mode : RunMode) :
    List Stage → StageActions → RunnerState → Except PipelineError Nat × StageActions × RunnerState
  | [], t, s => (.ok 0, t, s)
  | stage :: rest, t, s =>
    match runList runner mode (t.stage stage) s with
    | (.ok count, list, s') =>
      let (outcome, t', s'') := runStages runner mode rest (t.setStage stage list) s'
      (outcome.map (count + ·), t', s'')
    | (.error error, list, s') => (.error error, t.setStage stage list, s')

/-- Runs every stage in order. The number is that of the actions that succeeded. -/
def execute (t : StageActions) (runner : Runner) (mode : RunMode) (s : RunnerState) :
    Except PipelineError Nat × StageActions × RunnerState :=
  runStages runner mode Stage.all t s

end StageActions

end CompilerDriver
