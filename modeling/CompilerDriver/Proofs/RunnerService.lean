import CompilerDriver.Proofs.ExecutionRun

/-!
# The runner alone touches files

While actions run, nothing happens to the file system between two answers of the
runner. This holds for fresh actions and for those that have run before, and
wherever the run stops.
-/
namespace CompilerDriver

namespace Runner

/-- From one state to another by requests to the runner alone. -/
inductive Serves (runner : Runner) (s : RunnerState) : RunnerState → Prop where
  | refl : Serves runner s s
  | invoked {mid : RunnerState} (command : Command) : Serves runner s mid →
      Serves runner s (mid.invoke runner command).2
  | echoed {mid : RunnerState} (command : Command) : Serves runner s mid →
      Serves runner s (mid.echo command)

/-- The runner leaves the file system as it is. -/
def IsIdle (runner : Runner) : Prop :=
  ∀ calls command fs, (runner.answer calls command fs).2 = fs

variable {runner : Runner} {s mid s' : RunnerState}

theorem Serves.trans (h : runner.Serves s mid) (h' : runner.Serves mid s') :
    runner.Serves s s' := by
  induction h' with
  | refl => exact h
  | invoked command _ ih => exact ih.invoked command
  | echoed command _ ih => exact ih.echoed command

theorem Serves.fs_eq (h : runner.Serves s s') (hidle : runner.IsIdle) : s'.fs = s.fs := by
  induction h with
  | refl => rfl
  | @invoked mid command _ ih => exact (hidle mid.calls command mid.fs).trans ih
  | echoed _ _ ih => exact ih

end Runner

section Run

variable (runner : Runner) (mode : RunMode)

theorem Action.run_serves (a : Action) (s : RunnerState) :
    runner.Serves s (a.run runner mode s).2.2 := by
  unfold run
  split
  · exact .refl
  · cases mode with
    | dryRun => exact Runner.Serves.refl.echoed a.command
    | execute => exact Runner.Serves.refl.invoked a.command

namespace StageActions

theorem runList_serves (actions : List Action) (s : RunnerState) :
    runner.Serves s (runList runner mode actions s).2.2 := by
  induction actions generalizing s with
  | nil => exact .refl
  | cons a rest ih =>
    have hrun : runner.Serves s (a.run runner mode s).2.2 := a.run_serves runner mode s
    unfold runList
    rcases ha : a.run runner mode s with ⟨_ | _ | _, a', s'⟩
    · rw [ha] at hrun
      exact hrun
    · rw [ha] at hrun
      exact hrun
    · rw [ha] at hrun
      exact hrun.trans (ih s')

theorem execute_serves (t : StageActions) (s : RunnerState) :
    runner.Serves s (t.execute runner mode s).2.2 := by
  have hlist := runList_serves runner mode t.toList s
  rwa [execute_eq_runList] at hlist

end StageActions

end Run

end CompilerDriver
