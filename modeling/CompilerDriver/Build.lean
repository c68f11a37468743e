import CompilerDriver.Assembly
import CompilerDriver.Execution

/-! One build from a configuration: plan the stages, assemble the actions, run them, and remove
every temporary, whether or not the run succeeded. -/
namespace CompilerDriver

structure BuildSummary where
  plan : BuildPlan
  /-- Actions that ran or were echoed. -/
  completed : Nat
  /-- Temporaries that were still there to be removed. -/
  removed : Nat
  deriving DecidableEq, Repr

/-- Everything a build leaves behind. -/
structure BuildOutcome where
  result : Except PipelineError BuildSummary
  fs : FileSystem
  names : NameSupply
  /-- Every temporary that was created, in order. -/
  temporaries : List Path := []
  calls : List Call := []
  /-- The temporaries that could not be removed, and why. -/
  stuck : List (Path × SystemError) := []
  notices : List Notice := []

namespace Build

/-- The actions of a configuration whose stages are planned, with the workspace they leave. -/
def assemble (env : Environment) (stages : StagePlan) (c : Config) (fs : FileSystem)
    (names : NameSupply) : Except PipelineError BuildPlan × Workspace :=
  let settings : BuildSettings := ⟨c, Toolchain.locate env fs c.toolchain⟩
  let dir := c.tempDir.getD env.tempDir
  (Assembler.standard.assemble settings stages).run ⟨fs, names, { dir := dir }⟩

/-- Runs a plan in its workspace and cleans up. -/
def finish (runner : Runner) (c : Config) (plan : BuildPlan) (w : Workspace)
    (notices : List Notice) : BuildOutcome :=
  let (outcome, actions, s) := plan.actions.execute runner (.ofDryRun c.dryRun) { fs := w.fs }
  let worked := { w with fs := s.fs }
  let (removed, after) := worked.cleanup
  { result := outcome.map fun completed => ⟨{ plan with actions := actions }, completed, removed⟩
    fs := after.fs
    names := after.names
    temporaries := w.arena.paths
    calls := s.calls
    stuck := worked.stuck
    notices := notices ++ match outcome with
      | .ok completed => [.finished completed plan.stages.last]
      | .error _ => [] }

def run (env : Environment) (runner : Runner) (c : Config) (fs : FileSystem)
    (names : NameSupply) : BuildOutcome :=
  let planned := StagePlan.notices c.stages
  match StagePlan.resolve c with
  | .error error => { result := .error error, fs := fs, names := names, notices := planned }
  | .ok stages =>
    let notices := planned ++ Assembler.notices c
    match assemble env stages c fs names with
    | (.error error, w) =>
      let after := w.cleanup.2
      { result := .error error, fs := after.fs, names := after.names,
        temporaries := w.arena.paths, stuck := w.stuck, notices := notices }
    | (.ok plan, w) => finish runner c plan w notices

end Build

end CompilerDriver
