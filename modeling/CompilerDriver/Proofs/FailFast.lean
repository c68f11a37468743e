import CompilerDriver.Proofs.ActionMemory

/-!
# Execution stops at the first failure

Each action has an effect on an execution: the outcome on record, or else success
in a dry run, or else what the runner answers at that moment. Where all effects are
successes, all actions end succeeded. Where one is not, the first such action ends
failed and its error is that of the execution, the actions before it end succeeded,
and those after it are neither run nor changed.
-/
namespace CompilerDriver

namespace Action

/-- The outcome that counts for an execution: the one on record, or else a new one. -/
def effect (runner : Runner) (mode : RunMode) (s : RunnerState) (a : Action) :
    Except PipelineError Bool :=
  match a.recorded?, mode with
  | some outcome, _ => outcome
  | none, .dryRun => .ok true
  | none, .execute => (s.invoke runner a.command).1.mapError a.spawnError

/-- The state of the runner once it has been asked, which an action on record does not do. -/
def ask (runner : Runner) (mode : RunMode) (s : RunnerState) (a : Action) : RunnerState :=
  match a.recorded?, mode with
  | some _, _ => s
  | none, .dryRun => s.echo a.command
  | none, .execute => (s.invoke runner a.command).2

def succeed (a : Action) : Action := { a with result := .succeeded }

/-- The action `a'` is what `a` becomes where its effect is no success, and `e` is the error with
which it ends an execution. -/
structure EndsFailed (a : Action) (effect : Except PipelineError Bool) (a' : Action)
    (e : PipelineError) : Prop where
  result : a'.result = .failed
  kept : a'.kind = a.kind ∧ a'.template = a.template ∧ a'.binding = a.binding
  recorded : a.result ≠ .notRun → a' = a
  error : effect = .ok false ∧ e = .subcommandFailed a.kind.name a.command.display ∨
    effect = .error e ∧ ∃ source, e = .spawn a.command.program.display source

variable {runner : Runner} {mode : RunMode} {s : RunnerState} {a : Action}

theorem run_eq (runner : Runner) (mode : RunMode) (s : RunnerState) (a : Action) :
    a.run runner mode s =
      (a.effect runner mode s, (a.run runner mode s).2.1, a.ask runner mode s) := by
  unfold run effect ask
  cases a.recorded? with
  | some outcome => rfl
  | none => cases mode <;> rfl

theorem succeed_of_recorded (h : a.recorded? = some (.ok true)) : a.succeed = a := by
  rcases a with ⟨kind, template, binding, _ | _ | _, _ | _⟩ <;> simp_all [recorded?, succeed]

theorem run_of_effect (h : a.effect runner mode s = .ok true) :
    a.run runner mode s = (.ok true, a.succeed, a.ask runner mode s) := by
  unfold effect at h
  unfold run ask
  cases hr : a.recorded? with
  | some outcome =>
    rw [hr] at h
    cases h
    rw [succeed_of_recorded hr]
  | none =>
    rw [hr] at h
    cases mode with
    | dryRun => rfl
    | execute =>
      rcases hi : s.invoke runner a.command with ⟨source | ended, s'⟩
      · rw [hi] at h
        cases h
      · rw [hi] at h
        cases h
        rfl

theorem endsFailed_of_recorded {outcome : Except PipelineError Bool}
    (h : a.recorded? = some outcome) (hne : outcome ≠ .ok true) :
    ∃ e, a.EndsFailed outcome a e := by
  unfold recorded? at h
  split at h
  · cases h
  · cases h
    exact absurd rfl hne
  · next hr _ =>
    cases h
    exact ⟨_, hr, ⟨rfl, rfl, rfl⟩, fun _ => rfl, Or.inl ⟨rfl, rfl⟩⟩
  · next source hr _ =>
    cases h
    exact ⟨_, hr, ⟨rfl, rfl, rfl⟩, fun _ => rfl, Or.inr ⟨rfl, source, rfl⟩⟩

/-- An action of another effect than success is left as failed. -/
theorem endsFailed_run (h : a.effect runner mode s ≠ .ok true) :
    ∃ e, a.EndsFailed (a.effect runner mode s) (a.run runner mode s).2.1 e := by
  unfold effect at h ⊢
  unfold run
  cases hr : a.recorded? with
  | some outcome =>
    rw [hr] at h
    exact endsFailed_of_recorded hr h
  | none =>
    rw [hr] at h
    have hfresh : a.result = .notRun := recorded?_eq_none_iff.mp hr
    cases mode with
    | dryRun => exact absurd rfl h
    | execute =>
      rcases hi : s.invoke runner a.command with ⟨source | _ | _, s'⟩
      · exact ⟨_, rfl, ⟨rfl, rfl, rfl⟩, absurd hfresh, Or.inr ⟨rfl, source, rfl⟩⟩
      · exact ⟨_, rfl, ⟨rfl, rfl, rfl⟩, absurd hfresh, Or.inl ⟨rfl, rfl⟩⟩
      · rw [hi] at h
        exact absurd rfl h

end Action

namespace StageActions

variable (runner : Runner) (mode : RunMode)

/-- The effects of actions that are met one after the other. -/
def effects : List Action → RunnerState → List (Except PipelineError Bool)
  | [], _ => []
  | a :: rest, s => a.effect runner mode s :: effects rest (a.ask runner mode s)

/-- The state of the runner after all of the actions. -/
def askAll (actions : List Action) (s : RunnerState) : RunnerState :=
  actions.foldl (Action.ask runner mode) s

/-- All effects are successes. -/
def Passes (actions : List Action) (s : RunnerState) : Prop :=
  ∀ outcome ∈ effects runner mode actions s, outcome = .ok true

/-- From one state to the other the runner is asked about each of the actions that has not run,
once and in their order, and about nothing else. -/
def AsksOnce (actions : List Action) (s s' : RunnerState) : Prop :=
  s' = askAll runner mode actions s ∧ ∃ calls, s'.calls = s.calls ++ calls ∧
    calls.map Call.command =
      (actions.filter fun a => a.result = .notRun).map Action.command ∧
    ∀ call ∈ calls, call.isInvoked = mode.invokes

variable {runner mode} {actions more : List Action} {a : Action} {s s' : RunnerState}

theorem passes_nil : Passes runner mode [] s := by
  simp [Passes, effects]

theorem passes_cons_iff : Passes runner mode (a :: actions) s ↔
    a.effect runner mode s = .ok true ∧ Passes runner mode actions (a.ask runner mode s) := by
  simp [Passes, effects]

theorem askAll_append (actions more : List Action) (s : RunnerState) :
    askAll runner mode (actions ++ more) s =
      askAll runner mode more (askAll runner mode actions s) :=
  List.foldl_append

/-- One action asks at most once, and only where it has not run. -/
theorem asksOnce_ask (runner : Runner) (mode : RunMode) (a : Action) (s : RunnerState) :
    AsksOnce runner mode [a] s (a.ask runner mode s) := by
  refine ⟨rfl, ?_⟩
  unfold Action.ask
  cases hr : a.recorded? with
  | some outcome =>
    have hran : a.result ≠ .notRun := fun hn => by
      rw [Action.recorded?_eq_none_iff.mpr hn] at hr
      cases hr
    exact ⟨[], (List.append_nil _).symm, by simp [hran], by simp⟩
  | none =>
    have hfresh : a.result = .notRun := Action.recorded?_eq_none_iff.mp hr
    cases mode with
    | dryRun =>
      refine ⟨[.echoed a.command], rfl, ?_, ?_⟩
      · simp [hfresh, Call.command]
      · simp [Call.isInvoked, RunMode.invokes]
    | execute =>
      refine ⟨[.invoked a.command (runner.answer s.calls a.command s.fs).1], rfl, ?_, ?_⟩
      · simp [hfresh, Call.command]
      · simp [Call.isInvoked, RunMode.invokes]

theorem asksOnce_askAll (runner : Runner) (mode : RunMode) (actions : List Action)
    (s : RunnerState) : AsksOnce runner mode actions s (askAll runner mode actions s) := by
  refine ⟨rfl, ?_⟩
  induction actions generalizing s with
  | nil => exact ⟨[], (List.append_nil _).symm, rfl, by simp⟩
  | cons a rest ih =>
    obtain ⟨-, first, hfirst, hcommand, hmode⟩ := asksOnce_ask runner mode a s
    obtain ⟨calls, hcalls, hcommands, hmodes⟩ := ih (a.ask runner mode s)
    refine ⟨first ++ calls, ?_, ?_, List.forall_mem_append.mpr ⟨hmode, hmodes⟩⟩
    · rw [askAll, List.foldl_cons, ← askAll, hcalls, hfirst, List.append_assoc]
    · rw [List.map_append, hcommand, hcommands, ← List.map_append, ← List.filter_append,
        List.singleton_append]

theorem runList_of_passes (h : Passes runner mode actions s) :
    runList runner mode actions s =
      (.ok actions.length, actions.map Action.succeed, askAll runner mode actions s) := by
  induction actions generalizing s with
  | nil => rfl
  | cons a rest ih =>
    obtain ⟨ha, hrest⟩ := passes_cons_iff.mp h
    rw [runList, Action.run_of_effect ha]
    dsimp only
    rw [ih hrest]
    rfl

theorem runList_of_failed {effect : Except PipelineError Bool} {a' : Action} {e : PipelineError}
    (h : a.EndsFailed effect a' e) (hrun : a.run runner mode s = (effect, a', s'))
    (more : List Action) : runList runner mode (a :: more) s = (.error e, a' :: more, s') := by
  rw [runList, hrun]
  obtain ⟨rfl, rfl⟩ | ⟨rfl, -⟩ := h.error
  · rfl
  · rfl

/-- A list ends with the first action whose effect is no success. -/
theorem runList_of_stopped (hb : Passes runner mode actions s)
    (ha : a.effect runner mode (askAll runner mode actions s) ≠ .ok true) (more : List Action) :
    ∃ e a', a.EndsFailed (a.effect runner mode (askAll runner mode actions s)) a' e ∧
      runList runner mode (actions ++ a :: more) s =
        (.error e, actions.map Action.succeed ++ a' :: more,
          askAll runner mode (actions ++ [a]) s) := by
  obtain ⟨e, he⟩ := Action.endsFailed_run ha
  refine ⟨e, _, he, ?_⟩
  rw [runList_append, runList_of_passes hb, askAll_append]
  dsimp only
  rw [runList_of_failed he (Action.run_eq ..)]
  rfl

/-- Either all pass, or there is a first action that has no success. -/
theorem passes_or_exists_stopped (actions : List Action) (s : RunnerState) :
    Passes runner mode actions s ∨ ∃ before a after, actions = before ++ a :: after ∧
      Passes runner mode before s ∧
      a.effect runner mode (askAll runner mode before s) ≠ .ok true := by
  induction actions generalizing s with
  | nil => exact Or.inl passes_nil
  | cons a rest ih =>
    by_cases ha : a.effect runner mode s = .ok true
    · obtain hrest | ⟨before, b, after, rfl, hbefore, hb⟩ := ih (a.ask runner mode s)
      · exact Or.inl (passes_cons_iff.mpr ⟨ha, hrest⟩)
      · exact Or.inr ⟨a :: before, b, after, rfl, passes_cons_iff.mpr ⟨ha, hbefore⟩, hb⟩
    · exact Or.inr ⟨[], a, rest, rfl, passes_nil, ha⟩

/-- An execution ends at the first action whose effect is no success, if there is one. -/
structure FailsFast (runner : Runner) (mode : RunMode) (t : StageActions) (s : RunnerState) :
    Prop where
  /-- There is no third way. -/
  ends : Passes runner mode t.toList s ∨ ∃ before a after, t.toList = before ++ a :: after ∧
    Passes runner mode before s ∧ a.effect runner mode (askAll runner mode before s) ≠ .ok true
  /-- Each action stays at its place, so the list of all of them tells what each has become. -/
  places : ∀ stage, ((t.execute runner mode s).2.1.stage stage).length = (t.stage stage).length
  passed : Passes runner mode t.toList s →
    (t.execute runner mode s).1 = .ok t.size ∧
    (t.execute runner mode s).2.1.toList = t.toList.map Action.succeed ∧
    AsksOnce runner mode t.toList s (t.execute runner mode s).2.2
  stopped : ∀ before a after, t.toList = before ++ a :: after → Passes runner mode before s →
    a.effect runner mode (askAll runner mode before s) ≠ .ok true →
    ∃ e a', a.EndsFailed (a.effect runner mode (askAll runner mode before s)) a' e ∧
      (t.execute runner mode s).1 = .error e ∧
      (t.execute runner mode s).2.1.toList = before.map Action.succeed ++ a' :: after ∧
      AsksOnce runner mode (before ++ [a]) s (t.execute runner mode s).2.2

/-- **Execution is fail-fast.** -/
theorem failsFast_execute (runner : Runner) (mode : RunMode) (t : StageActions) (s : RunnerState) :
    t.FailsFast runner mode s where
  ends := passes_or_exists_stopped t.toList s
  places := length_stage_runStages runner mode Stage.all t s
  passed h := by
    have hrun := execute_eq_runList runner mode t s
    rw [runList_of_passes h] at hrun
    obtain ⟨houtcome, hactions, hstate⟩ := by simpa only [Prod.mk.injEq] using hrun
    refine ⟨houtcome.symm, hactions.symm, ?_⟩
    rw [← hstate]
    exact asksOnce_askAll runner mode t.toList s
  stopped before a after hsplit hbefore ha := by
    have hrun := execute_eq_runList runner mode t s
    obtain ⟨e, a', he, hlist⟩ := runList_of_stopped hbefore ha after
    rw [hsplit, hlist] at hrun
    obtain ⟨houtcome, hactions, hstate⟩ := by simpa only [Prod.mk.injEq] using hrun
    refine ⟨e, a', he, houtcome.symm, hactions.symm, ?_⟩
    rw [← hstate]
    exact asksOnce_askAll runner mode (before ++ [a]) s

end StageActions

end CompilerDriver
