import CompilerDriver.Execution
import Mathlib.Data.List.Basic

/-!
# Runs of fresh actions

The relation `Executes` says what a run of actions that have not run before
asks of the runner and how it ends: one call for each action, up to the first
one that does not succeed. A run of all stages is a run of their actions in
order.
-/
namespace CompilerDriver

/-- The command ended with status zero, or was only echoed. -/
def Call.Succeeded : Call → Prop
  | .invoked _ reply => reply.status = .ok true
  | .echoed _ => True

/-- Commands are executed and not only echoed. -/
def RunMode.invokes : RunMode → Bool
  | .execute => true
  | .dryRun => false

theorem map_zero_add (outcome : Except PipelineError Nat) : outcome.map (0 + ·) = outcome := by
  cases outcome with
  | error e => rfl
  | ok n => exact congrArg Except.ok (Nat.zero_add n)

theorem map_add_map_succ (outcome : Except PipelineError Nat) (n : Nat) :
    (outcome.map (n + ·)).map (· + 1) = outcome.map (n + 1 + ·) := by
  cases outcome with
  | error e => rfl
  | ok m => exact congrArg Except.ok (Nat.add_right_comm n m 1)

/-- The error of an action that its runner has answered. -/
def Action.failure? (a : Action) : Except SystemError Bool → Option PipelineError
  | .ok true => none
  | .ok false => some a.subcommandFailed
  | .error source => some (a.spawnError source)

theorem Action.failure?_eq_none_iff {a : Action} {status : Except SystemError Bool} :
    a.failure? status = none ↔ status = .ok true := by
  rcases status with _ | _ | _ <;> simp [failure?]

theorem Action.category_of_failure? {a : Action} {status : Except SystemError Bool}
    {e : PipelineError} (h : a.failure? status = some e) : e.category = .execution := by
  rcases status with _ | _ | _ <;> cases h <;> rfl

/-- A run of actions with its calls and its outcome. -/
inductive Executes (mode : RunMode) :
    List Action → List Call → Except PipelineError Nat → Prop where
  | nil : Executes mode [] [] (.ok 0)
  | called {a : Action} {call : Call} {rest : List Action} {calls : List Call}
      {outcome : Except PipelineError Nat} : call.command = a.command →
      call.isInvoked = mode.invokes → call.Succeeded → Executes mode rest calls outcome →
      Executes mode (a :: rest) (call :: calls) (outcome.map (· + 1))
  | stopped {a : Action} {rest : List Action} {reply : Reply} {e : PipelineError} :
      mode = .execute → a.failure? reply.status = some e →
      Executes mode (a :: rest) [.invoked a.command reply] (.error e)

namespace Executes

variable {mode : RunMode} {actions : List Action} {calls : List Call}
  {outcome : Except PipelineError Nat} {e : PipelineError} {n : Nat}

theorem succeeded_of_ok (h : Executes mode actions calls (.ok n)) :
    ∀ call ∈ calls, call.Succeeded := by
  generalize ho : Except.ok n = outcome at h
  induction h generalizing n with
  | nil => simp
  | @called _ _ _ _ outcome _ _ hs _ ih =>
    cases outcome with
    | error e => cases ho
    | ok m => exact List.forall_mem_cons.mpr ⟨hs, ih rfl⟩
  | stopped => cases ho

/-- A run that fails has called all actions up to the one that did not succeed. -/
theorem exists_stopped_of_error (h : Executes mode actions calls (.error e)) :
    mode = .execute ∧ ∃ done a rest before reply, actions = done ++ a :: rest ∧
      calls = before ++ [.invoked a.command reply] ∧
      before.map Call.command = done.map Action.command ∧ (∀ call ∈ before, call.Succeeded) ∧
      a.failure? reply.status = some e := by
  generalize ho : Except.error e = outcome at h
  induction h generalizing e with
  | nil => cases ho
  | @called first call _ _ outcome hcommand _ hs _ ih =>
    cases outcome with
    | ok n => cases ho
    | error e' =>
      cases ho
      obtain ⟨hmode, done, a, rest, before, reply, rfl, rfl, hbefore, hsucceeded, he⟩ := ih rfl
      refine ⟨hmode, first :: done, a, rest, call :: before, reply, rfl, rfl, ?_, ?_, he⟩
      · rw [List.map_cons, List.map_cons, hcommand, hbefore]
      · exact List.forall_mem_cons.mpr ⟨hs, hsucceeded⟩
  | stopped hmode he =>
    cases ho
    exact ⟨hmode, [], _, _, [], _, rfl, rfl, rfl, by simp, he⟩

/-- A run fails with the error of the action that was called last. -/
theorem exists_failed_of_error (h : Executes mode actions calls (.error e)) :
    mode = .execute ∧ ∃ a ∈ actions, ∃ reply,
      calls.getLast? = some (.invoked a.command reply) ∧ a.failure? reply.status = some e := by
  obtain ⟨hmode, done, a, rest, before, reply, rfl, rfl, -, -, he⟩ := h.exists_stopped_of_error
  exact ⟨hmode, a, List.mem_append_right _ List.mem_cons_self, reply, List.getLast?_concat, he⟩

/-- A run fails exactly when a command of one of its actions does not succeed. -/
theorem exists_error_iff (h : Executes mode actions calls outcome) :
    (∃ e, outcome = .error e) ↔ ∃ a ∈ actions, ∃ reply,
      .invoked a.command reply ∈ calls ∧ reply.status ≠ .ok true := by
  constructor
  · rintro ⟨e, rfl⟩
    obtain ⟨-, a, ha, reply, hl, he⟩ := h.exists_failed_of_error
    refine ⟨a, ha, reply, List.mem_of_getLast? hl, fun hs => ?_⟩
    rw [Action.failure?_eq_none_iff.mpr hs] at he
    cases he
  · rintro ⟨a, -, reply, hcall, hs⟩
    cases outcome with
    | error e => exact ⟨e, rfl⟩
    | ok n => exact absurd (h.succeeded_of_ok _ hcall) hs

end Executes

section Run

variable (runner : Runner) (mode : RunMode)

/-- A fresh action makes one call, which decides what follows. -/
theorem Action.run_of_fresh {a : Action} (h : a.recorded? = none) (s : RunnerState) :
    ∃ call outcome a' s', a.run runner mode s = (outcome, a', s') ∧
      s'.calls = s.calls ++ [call] ∧ call.command = a.command ∧
      call.isInvoked = mode.invokes ∧
      (outcome = .ok true ∧ call.Succeeded ∨
        ∃ reply e, mode = .execute ∧ call = .invoked a.command reply ∧
          a.failure? reply.status = some e ∧
          (outcome = .ok false ∧ e = a.subcommandFailed ∨ outcome = .error e)) := by
  unfold run
  rw [h]
  cases mode with
  | dryRun =>
    exact ⟨.echoed a.command, _, _, _, rfl, rfl, rfl, rfl, Or.inl ⟨rfl, trivial⟩⟩
  | execute =>
    rcases hr : runner.answer s.calls a.command s.fs with ⟨⟨status, printed, complaints⟩, fs⟩
    have hinvoke : s.invoke runner a.command =
        (status, ⟨fs, s.calls ++ [.invoked a.command ⟨status, printed, complaints⟩]⟩) := by
      rw [RunnerState.invoke, hr]
    dsimp only
    rw [hinvoke]
    refine ⟨_, _, _, _, rfl, rfl, rfl, rfl, ?_⟩
    rcases status with source | _ | _
    · exact Or.inr ⟨_, _, rfl, rfl, rfl, Or.inr rfl⟩
    · exact Or.inr ⟨_, _, rfl, rfl, rfl, Or.inl ⟨rfl, rfl⟩⟩
    · exact Or.inl ⟨rfl, rfl⟩

namespace StageActions

/-- What running an action leaves as it is, running a list leaves as it is. -/
theorem map_runList {β : Type} {f : Action → β}
    (hf : ∀ a s, f (a.run runner mode s).2.1 = f a) (actions : List Action) (s : RunnerState) :
    (runList runner mode actions s).2.1.map f = actions.map f := by
  induction actions generalizing s with
  | nil => rfl
  | cons a rest ih =>
    have ha := hf a s
    unfold runList
    rcases hrun : a.run runner mode s with ⟨_ | _ | _, a', s'⟩
    all_goals
      rw [hrun] at ha
      dsimp only
      rw [List.map_cons, List.map_cons, ha]
    rw [ih]

/-- A list goes on where the list before it has passed. -/
theorem runList_append (actions more : List Action) (s : RunnerState) :
    runList runner mode (actions ++ more) s =
      match runList runner mode actions s with
      | (.ok n, actions', s') =>
        ((runList runner mode more s').1.map (n + ·), actions' ++ (runList runner mode more s').2.1,
          (runList runner mode more s').2.2)
      | (.error e, actions', s') => (.error e, actions' ++ more, s') := by
  induction actions generalizing s with
  | nil => simp only [runList, map_zero_add, List.nil_append]
  | cons a rest ih =>
    rw [List.cons_append, runList, runList]
    rcases a.run runner mode s with ⟨e | _ | _, a', s'⟩
    · rfl
    · rfl
    · dsimp only
      rw [ih s']
      rcases runList runner mode rest s' with ⟨e | n, rest', s''⟩
      · rfl
      · exact congrArg (·, _, _) (map_add_map_succ _ n)

theorem flatMap_stage_setStage {stage : Stage} {rest : List Stage} (h : stage ∉ rest)
    (t : StageActions) (actions : List Action) :
    rest.flatMap (t.setStage stage actions).stage = rest.flatMap t.stage :=
  List.flatMap_congr fun _ hr => stage_setStage_of_ne t actions fun he => h (he ▸ hr)

/-- To run stage after stage is to run the lists of the stages as one. -/
theorem runStages_eq_runList {list : List Stage} (hn : list.Nodup) (t : StageActions)
    (s : RunnerState) :
    runList runner mode (list.flatMap t.stage) s =
        ((runStages runner mode list t s).1,
          list.flatMap (runStages runner mode list t s).2.1.stage,
          (runStages runner mode list t s).2.2) ∧
      ∀ stage ∉ list, (runStages runner mode list t s).2.1.stage stage = t.stage stage := by
  induction list generalizing t s with
  | nil => exact ⟨rfl, fun _ _ => rfl⟩
  | cons stage rest ih =>
    rw [List.nodup_cons] at hn
    rw [List.flatMap_cons, List.flatMap_cons, runList_append]
    unfold runStages
    rcases runList runner mode (t.stage stage) s with ⟨e | n, actions, s'⟩
    · dsimp only
      rw [stage_setStage_self, flatMap_stage_setStage hn.1]
      refine ⟨rfl, fun other hother => stage_setStage_of_ne t actions ?_⟩
      exact List.ne_of_not_mem_cons hother
    · obtain ⟨hrest, hothers⟩ := ih hn.2 (t.setStage stage actions) s'
      rw [flatMap_stage_setStage hn.1] at hrest
      dsimp only
      rw [hrest, hothers stage hn.1, stage_setStage_self]
      refine ⟨rfl, fun other hother => ?_⟩
      obtain ⟨hne, hmem⟩ := not_or.mp (List.mem_cons.not.mp hother)
      rw [hothers other hmem, stage_setStage_of_ne t actions hne]

/-- And so does running the stages, in the list of every stage. -/
theorem map_stage_runStages {β : Type} {f : Action → β}
    (hf : ∀ a s, f (a.run runner mode s).2.1 = f a) (list : List Stage) (t : StageActions)
    (s : RunnerState) (stage : Stage) :
    ((runStages runner mode list t s).2.1.stage stage).map f = (t.stage stage).map f := by
  induction list generalizing t s with
  | nil => rfl
  | cons first rest ih =>
    have hmap := map_runList runner mode hf (t.stage first) s
    have hset : ∀ actions : List Action, actions.map f = (t.stage first).map f →
        ((t.setStage first actions).stage stage).map f = (t.stage stage).map f := by
      intro actions hactions
      by_cases h : stage = first
      · rw [h, stage_setStage_self, hactions]
      · rw [stage_setStage_of_ne _ _ h]
    unfold runStages
    rcases hrun : runList runner mode (t.stage first) s with ⟨e | n, actions, s'⟩
    · rw [hrun] at hmap
      exact hset actions hmap
    · rw [hrun] at hmap
      exact (ih _ _).trans (hset actions hmap)

theorem length_stage_runStages (list : List Stage) (t : StageActions) (s : RunnerState)
    (stage : Stage) :
    ((runStages runner mode list t s).2.1.stage stage).length = (t.stage stage).length := by
  have hmap : (_ : List Unit) = _ :=
    map_stage_runStages runner mode (f := fun _ => ()) (fun _ _ => rfl) list t s stage
  have hlength := congrArg List.length hmap
  rwa [List.length_map, List.length_map] at hlength

/-- An execution runs all actions as one list. -/
theorem execute_eq_runList (t : StageActions) (s : RunnerState) :
    runList runner mode t.toList s = ((t.execute runner mode s).1,
      (t.execute runner mode s).2.1.toList, (t.execute runner mode s).2.2) :=
  (runStages_eq_runList runner mode Stage.nodup_all t s).1

/-- A list of fresh actions is run as the relation says. -/
theorem executes_runList {actions : List Action} (h : ∀ a ∈ actions, a.recorded? = none)
    (s : RunnerState) :
    ∃ calls, (runList runner mode actions s).2.2.calls = s.calls ++ calls ∧
      Executes mode actions calls (runList runner mode actions s).1 := by
  induction actions generalizing s with
  | nil => exact ⟨[], (List.append_nil _).symm, .nil⟩
  | cons a rest ih =>
    obtain ⟨ha, hrest⟩ := List.forall_mem_cons.mp h
    obtain ⟨call, outcome, a', s', hrun, hcalls, hcommand, hmode, hcase⟩ :=
      a.run_of_fresh runner mode ha s
    unfold runList
    rw [hrun]
    obtain ⟨rfl, hs⟩ | ⟨reply, e, hm, rfl, he, ⟨rfl, rfl⟩ | rfl⟩ := hcase
    · obtain ⟨calls, hc, hx⟩ := ih hrest s'
      refine ⟨call :: calls, ?_, .called hcommand hmode hs hx⟩
      dsimp only
      rw [hc, hcalls, List.append_assoc, List.singleton_append]
    · exact ⟨_, hcalls, .stopped hm he⟩
    · exact ⟨_, hcalls, .stopped hm he⟩

/-- All actions are run in their order. -/
theorem executes_execute {t : StageActions} (h : ∀ a ∈ t.toList, a.recorded? = none)
    (s : RunnerState) :
    ∃ calls, (t.execute runner mode s).2.2.calls = s.calls ++ calls ∧
      Executes mode t.toList calls (t.execute runner mode s).1 := by
  obtain ⟨calls, hcalls, hx⟩ := executes_runList runner mode h s
  rw [execute_eq_runList] at hcalls hx
  exact ⟨calls, hcalls, hx⟩

end StageActions

end Run

end CompilerDriver
