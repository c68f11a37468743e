import CompilerDriver.Build
import CompilerDriver.Proofs.AssemblySuccess
import CompilerDriver.Proofs.ExecutionRun

/-!
# Errors tell the phase

A build goes through planning, assembly and execution. The category of its
error is a function of the cause alone, and yet it tells which of the phases has
failed. A phase that is not reached leaves nothing behind.
-/
namespace CompilerDriver

namespace BuildOutcome

/-- The build ends in an error of the category. -/
def FailsIn (o : BuildOutcome) (category : ErrorCategory) : Prop :=
  ∃ e, o.result = .error e ∧ e.category = category

variable {o : BuildOutcome} {category : ErrorCategory} {e : PipelineError}

theorem failsIn_iff_of_error (h : o.result = .error e) :
    o.FailsIn category ↔ e.category = category := by
  unfold FailsIn
  rw [h]
  constructor
  · rintro ⟨e', he, hc⟩
    cases he
    exact hc
  · exact fun hc => ⟨e, rfl, hc⟩

theorem not_failsIn_of_ok {summary : BuildSummary} (h : o.result = .ok summary) :
    ¬ o.FailsIn category := by
  rintro ⟨e, he, -⟩
  rw [h] at he
  cases he

end BuildOutcome

theorem AssemblyFailure.category {ctx : AssemblyContext} {w w' : Workspace} {e : PipelineError}
    (h : AssemblyFailure ctx w e w') : e.category = .construction := by
  cases h <;> rfl

theorem Action.Built.recorded?_eq_none {settings : BuildSettings} {a : Action}
    (h : a.Built settings) : a.recorded? = none := by
  rw [recorded?, h.result]

namespace Build

variable (env : Environment) (runner : Runner) (c : Config) (fs : FileSystem) (names : NameSupply)

/-- The phase in which a build ends, with the trace it has left by then. -/
inductive EndsIn (o : BuildOutcome) : Prop where
  | planning {e : PipelineError} : StagePlan.resolve c = .error e → o.result = .error e →
      e.category = .configuration → o.temporaries = [] → o.calls = [] → o.fs = fs →
      o.names = names → EndsIn o
  | assembly {stages : StagePlan} {e : PipelineError} {w : Workspace} :
      StagePlan.resolve c = .ok stages → assemble env stages c fs names = (.error e, w) →
      o.result = .error e → e.category = .construction → o.calls = [] → EndsIn o
  | execution {stages : StagePlan} {plan : BuildPlan} {w : Workspace}
      {outcome : Except PipelineError Nat} :
      StagePlan.resolve c = .ok stages → assemble env stages c fs names = (.ok plan, w) →
      Executes (.ofDryRun c.dryRun) plan.actions.toList o.calls outcome →
      (∀ e, outcome = .error e → o.result = .error e) →
      (∀ n, outcome = .ok n → ∃ summary, o.result = .ok summary) → EndsIn o

variable {plan : BuildPlan} {w : Workspace} (notices : List Notice)

theorem finish_of_error {e : PipelineError}
    (h : (plan.actions.execute runner (.ofDryRun c.dryRun) { fs := w.fs }).1 = .error e) :
    (finish runner c plan w notices).result = .error e := by
  rcases hx : plan.actions.execute runner (.ofDryRun c.dryRun) { fs := w.fs } with ⟨outcome, _, _⟩
  rw [hx] at h
  obtain rfl : outcome = .error e := h
  rw [finish, hx]
  rfl

theorem finish_of_ok {n : Nat}
    (h : (plan.actions.execute runner (.ofDryRun c.dryRun) { fs := w.fs }).1 = .ok n) :
    ∃ summary, (finish runner c plan w notices).result = .ok summary := by
  rcases hx : plan.actions.execute runner (.ofDryRun c.dryRun) { fs := w.fs } with ⟨outcome, _, _⟩
  rw [hx] at h
  obtain rfl : outcome = .ok n := h
  rw [finish, hx]
  exact ⟨_, rfl⟩

section Phases

variable {env runner c fs names} {stages : StagePlan} {plan : BuildPlan} {w : Workspace}
  {e : PipelineError}

theorem run_eq_of_resolve_error (hr : StagePlan.resolve c = .error e) :
    run env runner c fs names =
      { result := .error e, fs := fs, names := names, notices := StagePlan.notices c.stages } := by
  rw [run, hr]

theorem run_eq_of_assemble_error (hr : StagePlan.resolve c = .ok stages)
    (ha : assemble env stages c fs names = (.error e, w)) :
    run env runner c fs names =
      { result := .error e, fs := w.cleanup.2.fs, names := w.cleanup.2.names,
        temporaries := w.arena.paths, stuck := w.stuck,
        notices := StagePlan.notices c.stages ++ Assembler.notices c } := by
  rw [run, hr]
  dsimp only
  rw [ha]

theorem run_eq_of_assemble_ok (hr : StagePlan.resolve c = .ok stages)
    (ha : assemble env stages c fs names = (.ok plan, w)) :
    run env runner c fs names =
      finish runner c plan w (StagePlan.notices c.stages ++ Assembler.notices c) := by
  rw [run, hr]
  dsimp only
  rw [ha]

theorem category_of_assemble_error (hr : StagePlan.resolve c = .ok stages)
    (ha : assemble env stages c fs names = (.error e, w)) : e.category = .construction :=
  (AssemblyContext.failure_of_run_eq_error ⟨⟨c, Toolchain.locate env fs c.toolchain⟩, stages⟩
    (StagePlan.accepted_of_resolve hr) ha).category

/-- No action of a new plan has run, so each that is reached makes its own call. -/
theorem executes_run (hr : StagePlan.resolve c = .ok stages)
    (ha : assemble env stages c fs names = (.ok plan, w)) :
    Executes (.ofDryRun c.dryRun) plan.actions.toList (run env runner c fs names).calls
      (plan.actions.execute runner (.ofDryRun c.dryRun) { fs := w.fs }).1 := by
  obtain ⟨-, paths, before, final, -, h⟩ :=
    AssemblyContext.assembled_of_run_eq_ok ⟨⟨c, Toolchain.locate env fs c.toolchain⟩, stages⟩
      (StagePlan.accepted_of_resolve hr) ha
  have hfresh : ∀ a ∈ plan.actions.toList, a.recorded? = none := fun a hm =>
    (h.built_of_mem hm).recorded?_eq_none
  obtain ⟨calls, hcalls, hx⟩ :=
    StageActions.executes_execute runner (.ofDryRun c.dryRun) hfresh { fs := w.fs }
  rw [List.nil_append] at hcalls
  subst hcalls
  rw [run_eq_of_assemble_ok hr ha]
  exact hx

theorem temporaries_run (hr : StagePlan.resolve c = .ok stages) :
    (run env runner c fs names).temporaries = (assemble env stages c fs names).2.arena.paths := by
  unfold run
  rw [hr]
  dsimp only
  rcases assemble env stages c fs names with ⟨e | plan, w⟩
  · rfl
  · dsimp only
    unfold finish
    rcases plan.actions.execute runner (.ofDryRun c.dryRun) { fs := w.fs } with ⟨_, _, _⟩
    rfl

end Phases

theorem endsIn_run : EndsIn env c fs names (run env runner c fs names) := by
  rcases hr : StagePlan.resolve c with e | stages
  · rw [run_eq_of_resolve_error hr]
    exact .planning hr rfl (StagePlan.category_of_resolve_error hr) rfl rfl rfl rfl
  · rcases ha : assemble env stages c fs names with ⟨e | plan, w⟩
    · rw [run_eq_of_assemble_error hr ha]
      exact .assembly hr ha rfl (category_of_assemble_error hr ha) rfl
    · have hx : Executes _ _ (run env runner c fs names).calls _ := executes_run hr ha
      rw [run_eq_of_assemble_ok hr ha] at hx ⊢
      exact .execution hr ha hx (fun e he => finish_of_error runner c _ he)
        fun n hn => finish_of_ok runner c _ hn

namespace EndsIn

variable {env c fs names} {o : BuildOutcome} {category : ErrorCategory}

/-- The category of the error, by the phase that has failed. -/
theorem failsIn_iff (h : EndsIn env c fs names o) :
    o.FailsIn category ↔
      (category = .configuration ∧ ∃ e, StagePlan.resolve c = .error e) ∨
      (category = .construction ∧ ∃ stages e w, StagePlan.resolve c = .ok stages ∧
        assemble env stages c fs names = (.error e, w)) ∨
      (category = .execution ∧ ∃ stages plan w, StagePlan.resolve c = .ok stages ∧
        assemble env stages c fs names = (.ok plan, w) ∧
        ∃ a ∈ plan.actions.toList, ∃ reply, .invoked a.command reply ∈ o.calls ∧
          reply.status ≠ .ok true) := by
  cases h with
  | planning hr ho hc =>
    rw [BuildOutcome.failsIn_iff_of_error ho, hc, hr]
    simp [eq_comm]
  | assembly hr ha ho hc =>
    rw [BuildOutcome.failsIn_iff_of_error ho, hc, hr]
    simp [ha, eq_comm]
  | @execution _ _ _ outcome hr ha hx he hok =>
    have hfails : o.FailsIn category ↔ category = .execution ∧ ∃ e, outcome = .error e := by
      cases outcome with
      | error e =>
        obtain ⟨-, a, -, reply, -, hfailure⟩ := hx.exists_failed_of_error
        rw [BuildOutcome.failsIn_iff_of_error (he e rfl), Action.category_of_failure? hfailure]
        simp [eq_comm]
      | ok n =>
        obtain ⟨summary, hsummary⟩ := hok n rfl
        simp [BuildOutcome.not_failsIn_of_ok hsummary]
    rw [hfails, hx.exists_error_iff, hr]
    simp [ha]

theorem untouched (h : EndsIn env c fs names o) (hf : o.FailsIn .configuration) :
    o.temporaries = [] ∧ o.calls = [] ∧ o.fs = fs ∧ o.names = names := by
  obtain ⟨-, e, hr'⟩ | ⟨hc, -⟩ | ⟨hc, -⟩ := h.failsIn_iff.mp hf
  · cases h with
    | planning _ _ _ htemporaries hcalls hfs hnames => exact ⟨htemporaries, hcalls, hfs, hnames⟩
    | assembly hr => rw [hr] at hr'; cases hr'
    | execution hr => rw [hr] at hr'; cases hr'
  · cases hc
  · cases hc

theorem calls_eq_nil (h : EndsIn env c fs names o) (hf : o.FailsIn .construction) :
    o.calls = [] := by
  obtain ⟨hc, -⟩ | ⟨-, stages, e, w, hr', ha'⟩ | ⟨hc, -⟩ := h.failsIn_iff.mp hf
  · cases hc
  · cases h with
    | planning hr => rw [hr] at hr'; cases hr'
    | assembly _ _ _ _ hcalls => exact hcalls
    | execution hr ha =>
      rw [hr] at hr'
      cases hr'
      rw [ha] at ha'
      cases ha'
  · cases hc

theorem not_failsIn_execution (h : EndsIn env c fs names o) (hd : c.dryRun = true) :
    ¬ o.FailsIn .execution := by
  intro hf
  cases h with
  | planning _ ho hc =>
    rw [BuildOutcome.failsIn_iff_of_error ho, hc] at hf
    cases hf
  | assembly _ _ ho hc =>
    rw [BuildOutcome.failsIn_iff_of_error ho, hc] at hf
    cases hf
  | @execution _ _ _ outcome _ _ hx _ hok =>
    rw [hd] at hx
    cases outcome with
    | error e => cases hx.exists_failed_of_error.1
    | ok n =>
      obtain ⟨summary, hsummary⟩ := hok n rfl
      exact BuildOutcome.not_failsIn_of_ok hsummary hf

end EndsIn

/-- The category of the error of a build is that of the first phase that fails. -/
structure ErrorPhases : Prop where
  configuration : (run env runner c fs names).FailsIn .configuration ↔
    ∃ e, StagePlan.resolve c = .error e
  construction : (run env runner c fs names).FailsIn .construction ↔
    ∃ stages e w, StagePlan.resolve c = .ok stages ∧
      assemble env stages c fs names = (.error e, w)
  /-- An action fails or cannot be launched. -/
  execution : (run env runner c fs names).FailsIn .execution ↔
    ∃ stages plan w, StagePlan.resolve c = .ok stages ∧
      assemble env stages c fs names = (.ok plan, w) ∧
      ∃ a ∈ plan.actions.toList, ∃ reply,
        .invoked a.command reply ∈ (run env runner c fs names).calls ∧ reply.status ≠ .ok true
  /-- A refused configuration allocates nothing and asks the runner for nothing. -/
  untouched : (run env runner c fs names).FailsIn .configuration →
    (run env runner c fs names).temporaries = [] ∧ (run env runner c fs names).calls = [] ∧
      (run env runner c fs names).fs = fs ∧ (run env runner c fs names).names = names
  uncalled : (run env runner c fs names).FailsIn .construction →
    (run env runner c fs names).calls = []
  dryRun : c.dryRun = true → ¬ (run env runner c fs names).FailsIn .execution

/-- For every configuration, every runner and every file system. -/
theorem error_phases : ErrorPhases env runner c fs names := by
  have h := endsIn_run env runner c fs names
  refine
    { configuration := ?_
      construction := ?_
      execution := ?_
      untouched := h.untouched
      uncalled := h.calls_eq_nil
      dryRun := h.not_failsIn_execution }
  all_goals
    rw [h.failsIn_iff]
    simp

end Build

end CompilerDriver
