import CompilerDriver.Proofs.ActionMemory
import CompilerDriver.Proofs.AssemblySettings
import CompilerDriver.Proofs.ComparedRuns
import CompilerDriver.Proofs.ErrorPhases

/-!
# A dry run foretells the real run

Planning and assembly never look at the mode, so a dry run and the real run of a
configuration have the same actions. The dry run echoes all of them. The real
run invokes their commands in the same order, up to the first one that does not
succeed. Where the two runs draw different tokens, the temporaries are matched
in the order in which they are created.
-/
namespace CompilerDriver

/-- The configuration, for a dry run or for a real one. -/
def Config.setDryRun (c : Config) (dry : Bool) : Config := { c with dryRun := dry }

theorem StagePlan.resolve_setDryRun (dry : Bool) (c : Config) :
    resolve (c.setDryRun dry) = resolve c := rfl

/-- The actions do not depend on whether they will be run. -/
theorem Build.assemble_setDryRun (dry : Bool) (env : Environment) (stages : StagePlan) (c : Config)
    (fs : FileSystem) (names : NameSupply) :
    assemble env stages (c.setDryRun dry) fs names = assemble env stages c fs names := by
  have h : BuildSettings.SameJobs ⟨c, Toolchain.locate env fs c.toolchain⟩
      ⟨c.setDryRun dry, Toolchain.locate env fs c.toolchain⟩ := ⟨rfl, rfl, rfl, rfl, rfl, rfl⟩
  exact congrArg (fun m : AssemblyM BuildPlan => m.run _)
    (Assembler.standard.assemble_congr h stages)

/-- The error that a command ends a build with, by what became of it. -/
def Command.FailsWith (command : Command) : Except SystemError Bool → PipelineError → Prop
  | .ok true, _ => False
  | .ok false, e => ∃ kind, e = .subcommandFailed kind command.display
  | .error source, e => e = .spawn command.program.display source

/-- The calls invoke the commands in order, all of them or up to the first that fails or cannot be
launched, and the build ends as the last of them tells. -/
inductive InvokesUntilFailure (commands : List Command) :
    List Call → Except PipelineError BuildSummary → Prop where
  | completed {calls : List Call} {summary : BuildSummary} : calls.map Call.command = commands →
      (∀ call ∈ calls, call.isInvoked = true ∧ call.Succeeded) →
      InvokesUntilFailure commands calls (.ok summary)
  | stopped {done rest : List Command} {command : Command} {calls : List Call} {reply : Reply}
      {e : PipelineError} : commands = done ++ command :: rest →
      calls.map Call.command = done →
      (∀ call ∈ calls, call.isInvoked = true ∧ call.Succeeded) →
      command.FailsWith reply.status e →
      InvokesUntilFailure commands (calls ++ [.invoked command reply]) (.error e)

/-- A dry run tells what the real run does, with files that correspond. -/
inductive Foretells (same : Path → Path → Prop) (dry real : BuildOutcome) : Prop where
  /-- Both fail before any action is reached, and in the same way. -/
  | refused {e : PipelineError} : dry.result = .error e → real.result = .error e →
      dry.calls = [] → real.calls = [] → Foretells same dry real
  /-- The dry run echoes every action once, and the real run keeps to these commands. -/
  | ran {summary : BuildSummary} {commands : List Command} : dry.result = .ok summary →
      dry.calls = summary.plan.actions.toList.map (fun a => .echoed a.command) →
      List.Forall₂ (Command.Alike same) (dry.calls.map Call.command) commands →
      InvokesUntilFailure commands real.calls real.result → Foretells same dry real

/-- The commands of the real run are the first ones that the dry run has echoed. -/
theorem Foretells.initial_commands {dry real : BuildOutcome} (h : Foretells Eq dry real) :
    real.calls.map Call.command <+: dry.calls.map Call.command := by
  cases h with
  | refused _ _ hdry hreal =>
    have hcalls : real.calls = dry.calls := hreal.trans hdry.symm
    exact hcalls ▸ List.prefix_refl _
  | @ran summary commands _ _ halike hreal =>
    have heq : dry.calls.map Call.command = commands := by
      have hsame := halike.imp fun _ _ hc => hc.eq.symm
      rwa [List.forall₂_eq_eq_eq] at hsame
    rw [heq]
    generalize real.calls = calls, real.result = result at hreal
    cases hreal with
    | completed hcalls _ => exact hcalls ▸ List.prefix_refl _
    | stopped hcommands hcalls _ _ =>
      rw [List.map_append, hcalls, hcommands, List.map_singleton]
      exact ⟨_, by rw [List.append_assoc]; rfl⟩

namespace Executes

variable {mode : RunMode} {actions : List Action} {calls : List Call}
  {outcome : Except PipelineError Nat} {n : Nat} {e : PipelineError}

/-- Echoed commands are not refused, so a dry run comes to its end. -/
theorem echoes (h : Executes .dryRun actions calls outcome) :
    calls = actions.map (fun a => .echoed a.command) ∧ ∃ n, outcome = .ok n := by
  constructor
  · induction h with
    | nil => rfl
    | @called a call _ _ _ hcommand hmode _ _ ih =>
      cases call with
      | invoked command reply => cases hmode
      | echoed command =>
        obtain rfl : command = a.command := hcommand
        rw [List.map_cons, ih]
    | stopped hmode => cases hmode
  · cases outcome with
    | ok n => exact ⟨n, rfl⟩
    | error e => cases h.exists_failed_of_error.1

theorem isInvoked (h : Executes .execute actions calls outcome) :
    ∀ call ∈ calls, call.isInvoked = true := by
  induction h with
  | nil => simp
  | called _ hmode _ _ ih => exact List.forall_mem_cons.mpr ⟨hmode, ih⟩
  | stopped _ _ => simp [Call.isInvoked]

theorem map_command_of_ok (h : Executes mode actions calls (.ok n)) :
    calls.map Call.command = actions.map Action.command := by
  generalize ho : Except.ok n = outcome at h
  induction h generalizing n with
  | nil => rfl
  | @called _ _ _ _ outcome hcommand _ _ _ ih =>
    cases outcome with
    | error e => cases ho
    | ok m => rw [List.map_cons, List.map_cons, hcommand, ih rfl]
  | stopped => cases ho

end Executes

theorem Action.failsWith_of_failure? {a : Action} {status : Except SystemError Bool}
    {e : PipelineError} (h : a.failure? status = some e) : a.command.FailsWith status e := by
  rcases status with source | _ | _
  · cases h
    rfl
  · cases h
    exact ⟨_, rfl⟩
  · cases h

/-- A real run invokes the commands of its actions until one fails. -/
theorem Executes.invokesUntilFailure {actions : List Action} {calls : List Call}
    {outcome : Except PipelineError Nat} {result : Except PipelineError BuildSummary}
    (h : Executes .execute actions calls outcome) (he : ∀ e, outcome = .error e → result = .error e)
    (hok : ∀ n, outcome = .ok n → ∃ summary, result = .ok summary) :
    InvokesUntilFailure (actions.map Action.command) calls result := by
  have hinvoked := h.isInvoked
  cases outcome with
  | ok n =>
    obtain ⟨summary, rfl⟩ := hok n rfl
    exact .completed h.map_command_of_ok fun call hcall =>
      ⟨hinvoked call hcall, h.succeeded_of_ok call hcall⟩
  | error e =>
    obtain rfl := he e rfl
    obtain ⟨-, done, a, rest, before, reply, rfl, rfl, hbefore, hsucceeded, hfailure⟩ :=
      h.exists_stopped_of_error
    have hcommands : (done ++ a :: rest).map Action.command =
        done.map Action.command ++ a.command :: rest.map Action.command := by
      rw [List.map_append, List.map_cons]
    exact .stopped hcommands hbefore
      (fun call hcall => ⟨hinvoked call (List.mem_append_left _ hcall), hsucceeded call hcall⟩)
      (Action.failsWith_of_failure? hfailure)

namespace StageActions

variable (runner : Runner) (mode : RunMode)

/-- Running the actions does not change their commands. -/
theorem map_command_execute (t : StageActions) (s : RunnerState) :
    (t.execute runner mode s).2.1.toList.map (·.command) = t.toList.map (·.command) := by
  have hlist := map_runList runner mode (fun a s => a.command_run runner mode s) t.toList s
  rwa [execute_eq_runList] at hlist

end StageActions

namespace BuildOutcome

/-- The system has refused to make a temporary. -/
def AllocationFails (o : BuildOutcome) : Prop := ∃ source, o.result = .error (.tempArtifact source)

end BuildOutcome

namespace Build

section Ends

variable {env : Environment} {runner : Runner} {c : Config} {fs : FileSystem} {names : NameSupply}
  {stages : StagePlan} {plan : BuildPlan} {w : Workspace} {e : PipelineError}

theorem run_of_resolve_error (hr : StagePlan.resolve c = .error e) :
    (run env runner c fs names).result = .error e ∧ (run env runner c fs names).calls = [] := by
  rw [run_eq_of_resolve_error hr]
  exact ⟨rfl, rfl⟩

theorem run_of_assemble_error (hr : StagePlan.resolve c = .ok stages)
    (ha : assemble env stages c fs names = (.error e, w)) :
    (run env runner c fs names).result = .error e ∧ (run env runner c fs names).calls = [] := by
  rw [run_eq_of_assemble_error hr ha]
  exact ⟨rfl, rfl⟩

theorem run_of_assemble_ok (hr : StagePlan.resolve c = .ok stages)
    (ha : assemble env stages c fs names = (.ok plan, w)) :
    ∃ outcome, Executes (.ofDryRun c.dryRun) plan.actions.toList (run env runner c fs names).calls
        outcome ∧
      (∀ e, outcome = .error e → (run env runner c fs names).result = .error e) ∧
      ∀ n, outcome = .ok n → ∃ summary, (run env runner c fs names).result = .ok summary := by
  refine ⟨_, executes_run hr ha, ?_, ?_⟩
  all_goals
    rw [run_eq_of_assemble_ok hr ha]
  · exact fun e he => finish_of_error runner c _ he
  · exact fun n hn => finish_of_ok runner c _ hn

/-- The plan in the summary is the assembled one, with its actions run. -/
theorem plan_summary {summary : BuildSummary} (hr : StagePlan.resolve c = .ok stages)
    (ha : assemble env stages c fs names = (.ok plan, w))
    (hs : (run env runner c fs names).result = .ok summary) :
    summary.plan = { plan with
      actions := (plan.actions.execute runner (.ofDryRun c.dryRun) { fs := w.fs }).2.1 } := by
  rw [run_eq_of_assemble_ok hr ha, finish] at hs
  rcases hx : plan.actions.execute runner (.ofDryRun c.dryRun) { fs := w.fs } with
    ⟨e | count, actions, s⟩
  · rw [hx] at hs
    cases hs
  · rw [hx] at hs
    cases hs
    rfl

/-- It has the commands that were assembled. -/
theorem map_command_summary {summary : BuildSummary} (hr : StagePlan.resolve c = .ok stages)
    (ha : assemble env stages c fs names = (.ok plan, w))
    (hs : (run env runner c fs names).result = .ok summary) :
    summary.plan.actions.toList.map (·.command) = plan.actions.toList.map (·.command) := by
  rw [plan_summary hr ha hs]
  exact plan.actions.map_command_execute runner (.ofDryRun c.dryRun) { fs := w.fs }

end Ends

section Foretold

variable {env : Environment} {watcher runner : Runner} {c : Config} {fs : FileSystem}
  {names names' : NameSupply} {stages : StagePlan} {plan plan' : BuildPlan} {w w' : Workspace}
  {e : PipelineError} {same : Path → Path → Prop}

theorem foretells_of_assemble_error (hr : StagePlan.resolve c = .ok stages)
    (h : assemble env stages c fs names = (.error e, w))
    (h' : assemble env stages c fs names' = (.error e, w')) :
    Foretells same (run env watcher (c.setDryRun true) fs names)
      (run env runner (c.setDryRun false) fs names') := by
  obtain ⟨hresult, hcalls⟩ := run_of_assemble_error ((StagePlan.resolve_setDryRun true c).trans hr)
    ((assemble_setDryRun true env stages c fs names).trans h)
  obtain ⟨hresult', hcalls'⟩ := run_of_assemble_error
    ((StagePlan.resolve_setDryRun false c).trans hr)
    ((assemble_setDryRun false env stages c fs names').trans h')
  exact .refused hresult hresult' hcalls hcalls'

/-- Where both runs come to their actions, and these are alike, the dry run foretells the other. -/
theorem foretells_of_alike (hr : StagePlan.resolve c = .ok stages)
    (h : assemble env stages c fs names = (.ok plan, w))
    (h' : assemble env stages c fs names' = (.ok plan', w'))
    (halike : List.Forall₂ (Action.Alike same) plan.actions.toList plan'.actions.toList) :
    Foretells same (run env watcher (c.setDryRun true) fs names)
      (run env runner (c.setDryRun false) fs names') := by
  have hresolve := (StagePlan.resolve_setDryRun true c).trans hr
  have hresolve' := (StagePlan.resolve_setDryRun false c).trans hr
  have hassemble := (assemble_setDryRun true env stages c fs names).trans h
  have hassemble' := (assemble_setDryRun false env stages c fs names').trans h'
  obtain ⟨outcome, hdry, -, hok⟩ := run_of_assemble_ok hresolve hassemble
  obtain ⟨outcome', hreal, he', hok'⟩ := run_of_assemble_ok hresolve' hassemble'
  obtain ⟨hcalls, n, rfl⟩ := hdry.echoes
  obtain ⟨summary, hsummary⟩ := hok n rfl
  have hcommands := map_command_summary hresolve hassemble hsummary
  have hechoed : (run env watcher (c.setDryRun true) fs names).calls =
      summary.plan.actions.toList.map (fun a => .echoed a.command) := by
    have hmap := congrArg (List.map Call.echoed) hcommands
    rw [List.map_map, List.map_map] at hmap
    exact hcalls.trans hmap.symm
  have hsame : List.Forall₂ (Command.Alike same)
      ((run env watcher (c.setDryRun true) fs names).calls.map Call.command)
      (plan'.actions.toList.map Action.command) := by
    rw [hcalls, List.map_map, List.forall₂_map_left_iff, List.forall₂_map_right_iff]
    exact halike.imp fun _ _ ha => ha.command
  exact .ran hsummary hechoed hsame (hreal.invokesUntilFailure he' hok')

theorem foretells_of_resolve_error (hr : StagePlan.resolve c = .error e) :
    Foretells same (run env watcher (c.setDryRun true) fs names)
      (run env runner (c.setDryRun false) fs names') := by
  obtain ⟨hresult, hcalls⟩ := run_of_resolve_error ((StagePlan.resolve_setDryRun true c).trans hr)
  obtain ⟨hresult', hcalls'⟩ := run_of_resolve_error
    ((StagePlan.resolve_setDryRun false c).trans hr)
  exact .refused hresult hresult' hcalls hcalls'

end Foretold

/-- Planning or assembly fails with this error. -/
def Refused (env : Environment) (c : Config) (fs : FileSystem) (names : NameSupply)
    (e : PipelineError) : Prop :=
  StagePlan.resolve c = .error e ∨ ∃ stages w, StagePlan.resolve c = .ok stages ∧
    assemble env stages c fs names = (.error e, w)

/-- A dry run of the configuration, started where the real run is. -/
structure DryRunFaithful (env : Environment) (watcher runner : Runner) (c : Config)
    (fs : FileSystem) : Prop where
  /-- The dry run fails where planning or assembly does, and nowhere else. -/
  refused : ∀ (names : NameSupply) (e : PipelineError),
    (run env watcher (c.setDryRun true) fs names).result = .error e ↔ Refused env c fs names e
  /-- Where the temporaries have the same names, so have all files. -/
  same : ∀ names, Foretells Eq (run env watcher (c.setDryRun true) fs names)
    (run env runner (c.setDryRun false) fs names)
  /-- Under other tokens the runs agree as well, with temporaries matched in order. -/
  renamed : ∀ names names',
    let dry := run env watcher (c.setDryRun true) fs names
    let real := run env runner (c.setDryRun false) fs names'
    ¬ dry.AllocationFails → ¬ real.AllocationFails →
    c.LibraryApart dry.temporaries → c.LibraryApart real.temporaries →
    Foretells (SameFile c.files dry.temporaries real.temporaries) dry real ∧
      ∀ summary, dry.result = .ok summary →
        List.Forall₂ (Twins fs (c.tempDir.getD env.tempDir)) dry.temporaries real.temporaries

section Faithful

variable {env : Environment} {watcher runner : Runner} {c : Config} {fs : FileSystem}
  {names names' : NameSupply} {stages : StagePlan} {plan plan' : BuildPlan} {w w' : Workspace}
  {e : PipelineError}

theorem result_dryRun_eq_error_iff : (run env watcher (c.setDryRun true) fs names).result =
    .error e ↔ Refused env c fs names e := by
  unfold Refused
  cases hr : StagePlan.resolve c with
  | error e' =>
    rw [(run_of_resolve_error ((StagePlan.resolve_setDryRun true c).trans hr)).1]
    simp
  | ok stages =>
    have hresolve := (StagePlan.resolve_setDryRun true c).trans hr
    rcases ha : assemble env stages c fs names with ⟨e' | plan, w⟩
    · have hassemble := (assemble_setDryRun true env stages c fs names).trans ha
      rw [(run_of_assemble_error hresolve hassemble).1]
      simp [ha]
    · have hsucceeds : ∃ summary,
          (run env watcher (c.setDryRun true) fs names).result = .ok summary := by
        obtain ⟨outcome, hdry, -, hok⟩ := run_of_assemble_ok hresolve
          ((assemble_setDryRun true env stages c fs names).trans ha)
        obtain ⟨-, n, rfl⟩ := hdry.echoes
        exact hok n rfl
      obtain ⟨summary, hsummary⟩ := hsucceeds
      rw [hsummary]
      simp [ha]

theorem temporaries_setDryRun (dry : Bool) (hr : StagePlan.resolve c = .ok stages) :
    (run env runner (c.setDryRun dry) fs names).temporaries =
      (assemble env stages c fs names).2.arena.paths := by
  rw [temporaries_run ((StagePlan.resolve_setDryRun dry c).trans hr), assemble_setDryRun]

theorem not_allocationFails_assemble (dry : Bool) (hr : StagePlan.resolve c = .ok stages)
    (h : ¬ (run env runner (c.setDryRun dry) fs names).AllocationFails) :
    ¬ AllocationFails (assemble env stages c fs names) := by
  intro hf
  obtain ⟨source, hsource⟩ := hf
  rcases ha : assemble env stages c fs names with ⟨e | plan, w⟩
  · rw [ha] at hsource
    cases hsource
    have hresolve := (StagePlan.resolve_setDryRun dry c).trans hr
    have hassemble := (assemble_setDryRun dry env stages c fs names).trans ha
    exact h ⟨source, (run_of_assemble_error hresolve hassemble).1⟩
  · rw [ha] at hsource
    cases hsource

theorem foretells_same (env : Environment) (watcher runner : Runner) (c : Config)
    (fs : FileSystem) (names : NameSupply) :
    Foretells Eq (run env watcher (c.setDryRun true) fs names)
      (run env runner (c.setDryRun false) fs names) := by
  cases hr : StagePlan.resolve c with
  | error e => exact foretells_of_resolve_error hr
  | ok stages =>
    rcases ha : assemble env stages c fs names with ⟨e | plan, w⟩
    · exact foretells_of_assemble_error hr ha ha
    · exact foretells_of_alike hr ha ha (List.forall₂_same.mpr fun a _ => .refl a)

/-- Whether assembly succeeds is not up to the tokens, and so the runs end alike. -/
theorem foretells_renamed_of_resolve (hr : StagePlan.resolve c = .ok stages)
    (hn : ¬ AllocationFails (assemble env stages c fs names))
    (hn' : ¬ AllocationFails (assemble env stages c fs names'))
    (hlib : c.LibraryApart (assemble env stages c fs names).2.arena.paths)
    (hlib' : c.LibraryApart (assemble env stages c fs names').2.arena.paths) :
    Foretells (SameFile c.files (assemble env stages c fs names).2.arena.paths
        (assemble env stages c fs names').2.arena.paths)
      (run env watcher (c.setDryRun true) fs names)
      (run env runner (c.setDryRun false) fs names') := by
  obtain ⟨e, w, w', ha, ha'⟩ | ⟨plan, plan', w, w', ha, ha'⟩ := assemble_ends_alike hr hn hn'
  · exact foretells_of_assemble_error hr ha ha'
  · rw [ha] at hlib ⊢
    rw [ha'] at hlib' ⊢
    obtain ⟨before, final, hrun⟩ := assembledIn_of_assemble hr ha
    obtain ⟨before', final', hrun'⟩ := assembledIn_of_assemble hr ha'
    refine foretells_of_alike hr ha ha' (hrun.forall₂_toList hrun' rfl (fun p => .refl p _) ?_)
    exact fun _ => ⟨hlib.clear hrun.exists_fileName fs, hlib'.clear hrun'.exists_fileName fs⟩

/-- For every configuration, file system and pair of runners. -/
theorem dryRunFaithful (env : Environment) (watcher runner : Runner) (c : Config)
    (fs : FileSystem) : DryRunFaithful env watcher runner c fs where
  refused _ _ := result_dryRun_eq_error_iff
  same := foretells_same env watcher runner c fs
  renamed names names' := by
    intro dry real hn hn' hlib hlib'
    cases hr : StagePlan.resolve c with
    | error e =>
      refine ⟨foretells_of_resolve_error hr, fun summary hs => ?_⟩
      have he : dry.result = .error e := result_dryRun_eq_error_iff.mpr (.inl hr)
      rw [he] at hs
      cases hs
    | ok stages =>
      have htemporaries : dry.temporaries = (assemble env stages c fs names).2.arena.paths :=
        temporaries_setDryRun true hr
      have htemporaries' : real.temporaries = (assemble env stages c fs names').2.arena.paths :=
        temporaries_setDryRun false hr
      have hok := not_allocationFails_assemble true hr hn
      have hok' := not_allocationFails_assemble false hr hn'
      rw [htemporaries] at hlib
      rw [htemporaries'] at hlib'
      rw [htemporaries, htemporaries']
      refine ⟨foretells_renamed_of_resolve hr hok hok' hlib hlib', fun summary hs => ?_⟩
      have hresult := (result_assemble hr hok).trans (result_assemble hr hok').symm
      rcases ha : assemble env stages c fs names with ⟨e | plan, w⟩
      · have he : dry.result = .error e := result_dryRun_eq_error_iff.mpr (.inr ⟨_, _, hr, ha⟩)
        rw [he] at hs
        cases hs
      · rcases ha' : assemble env stages c fs names' with ⟨e' | plan', w'⟩
        · rw [ha, ha'] at hresult
          cases hresult
        · exact forall₂_twins hr ha ha'

end Faithful

end Build

end CompilerDriver
