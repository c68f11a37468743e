import CompilerDriver.Proofs.ActionOrder
import CompilerDriver.Proofs.ExecutionRun

/-!
# Runs of single actions

To execute all actions is to run one action after another at their places, until
one does not succeed. A run looks at the action that stands at its place, asks
the runner if the action has not run yet, and puts the action back with what
became of it. Here the runs are made explicit, whatever has run before.
-/
namespace CompilerDriver

namespace StageActions

/-- Another action at a place that is taken. -/
def put (t : StageActions) (id : ActionId) (a : Action) : StageActions :=
  t.setStage id.stage ((t.stage id.stage).set id.index a)

variable {t : StageActions} {id other : ActionId} {a b : Action} {s r : Stage}

end StageActions

/-- The actions and the state of their runner. -/
structure Progress where
  actions : StageActions
  state : RunnerState

/-- One run of the action at a place, from the moment before it. -/
structure ActionRun where
  place : ActionId
  before : Action
  runner : Runner
  mode : RunMode
  start : RunnerState

namespace ActionRun

def outcome (r : ActionRun) : Except PipelineError Bool :=
  (r.before.run r.runner r.mode r.start).1

/-- The action after the run. -/
def after (r : ActionRun) : Action := (r.before.run r.runner r.mode r.start).2.1

def state (r : ActionRun) : RunnerState := (r.before.run r.runner r.mode r.start).2.2

/-- What the run asks of its runner. -/
def calls (r : ActionRun) : List Call := r.state.calls.drop r.start.calls.length

/-- The error with which the run ends an execution. -/
def failure? (r : ActionRun) : Option PipelineError :=
  match r.outcome with
  | .ok true => none
  | .ok false => some r.before.subcommandFailed
  | .error e => some e

/-- The run is one of the action that stands at its place. -/
structure StartsAt (r : ActionRun) (g : Progress) : Prop where
  before : g.actions.get? r.place = some r.before
  start : r.start = g.state

/-- What the run makes of the progress. -/
def next (r : ActionRun) (g : Progress) : Progress := ⟨g.actions.put r.place r.after, r.state⟩

/-- The progress after several runs. -/
def follow (runs : List ActionRun) (g : Progress) : Progress := runs.foldl (fun g r => r.next g) g

/-- Each run starts where the one before it has ended. -/
inductive Chained : Progress → List ActionRun → Prop where
  | nil (g : Progress) : Chained g []
  | cons {g : Progress} {r : ActionRun} {rest : List ActionRun} : r.StartsAt g →
      Chained (r.next g) rest → Chained g (r :: rest)

/-- The outcome of an execution that consists of the runs. -/
def verdict : List ActionRun → Except PipelineError Nat
  | [] => .ok 0
  | r :: rest =>
    match r.failure? with
    | none => (verdict rest).map (· + 1)
    | some e => .error e

theorem Chained.append {g : Progress} {runs more : List ActionRun} (h : Chained g runs)
    (h' : Chained (follow runs g) more) : Chained g (runs ++ more) := by
  induction h with
  | nil _ => exact h'
  | cons hs _ ih => exact .cons hs (ih h')

end ActionRun

namespace Progress

open ActionRun StageActions

/-- The run of the action that stands at a place. -/
def runOf (g : Progress) (place : ActionId) (a : Action) (runner : Runner) (mode : RunMode) :
    ActionRun := ⟨place, a, runner, mode, g.state⟩

/-- The runs at the places in their order, up to the first one that does not succeed. -/
def runsAt (runner : Runner) (mode : RunMode) : List ActionId → Progress → List ActionRun
  | [], _ => []
  | place :: rest, g =>
    match g.actions.get? place with
    | none => runsAt runner mode rest g
    | some a =>
      let r := g.runOf place a runner mode
      match r.failure? with
      | none => r :: runsAt runner mode rest (r.next g)
      | some _ => [r]

/-- The runs of which an execution consists. -/
def executionRuns (runner : Runner) (mode : RunMode) (g : Progress) : List ActionRun :=
  runsAt runner mode g.actions.ids g

section Unfolding

variable {runner : Runner} {mode : RunMode} {place : ActionId} {places more : List ActionId}
  {g : Progress} {a : Action} {e : PipelineError}

end Unfolding

section Execution

variable {runner : Runner} {mode : RunMode}

theorem runList_of_failed {r : ActionRun} {e : PipelineError} (h : r.failure? = some e)
    (rest : List Action) :
    runList r.runner r.mode (r.before :: rest) r.start = (.error e, r.after :: rest, r.state) := by
  unfold failure? outcome at h
  unfold after ActionRun.state
  rw [runList]
  rcases hrun : r.before.run r.runner r.mode r.start with ⟨e' | _ | _, a', σ'⟩
  all_goals
    rw [hrun] at h
    cases h
  · rfl
  · rfl

end Execution

end Progress

end CompilerDriver
