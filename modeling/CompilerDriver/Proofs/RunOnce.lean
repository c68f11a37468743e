import CompilerDriver.Proofs.ActionMemory
import CompilerDriver.Proofs.AssembledPlan
import CompilerDriver.Proofs.WorkspaceGrowth

/-!
# Actions run at most once

The actions of a plan may be run one by one or all together, in any order, with
any runners and as often as one likes. Each of them is handed to a runner at most
once, and an execution that has ended is repeated without any runner.
-/
namespace CompilerDriver

/-- One operation on the actions of a plan. -/
inductive Operation where
  /-- Runs the action at a place. -/
  | run (place : ActionId) (runner : Runner) (mode : RunMode)
  /-- Runs all actions. -/
  | execute (runner : Runner) (mode : RunMode)

namespace Operation

open ActionRun

def perform : Operation → Progress → Progress
  | run place runner mode, g =>
    match g.actions.get? place with
    | none => g
    | some a =>
      let (_, a', s) := a.run runner mode g.state
      ⟨g.actions.put place a', s⟩
  | execute runner mode, g =>
    let (_, t, s) := g.actions.execute runner mode g.state
    ⟨t, s⟩

/-- The single runs of which the operation consists. -/
def runs : Operation → Progress → List ActionRun
  | run place runner mode, g =>
    (g.actions.get? place).toList.map fun a => g.runOf place a runner mode
  | execute runner mode, g => g.executionRuns runner mode

end Operation

namespace Progress

open ActionRun

/-- All single runs of several operations. -/
def trace : Progress → List Operation → List ActionRun
  | _, [] => []
  | g, op :: rest => op.runs g ++ trace (op.perform g) rest

variable {g : Progress}

end Progress

end CompilerDriver
