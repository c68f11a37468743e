import CompilerDriver.Proofs.ErrorPhases
import CompilerDriver.Session

/-!
# A session stops at its first failure

A session changes the directory, loads its settings, checks that the inputs exist,
and builds, which is to plan, to assemble and to execute. Each of these steps is
reached where all before it have succeeded, so at most one of them fails. That step
alone decides the exit code and the code of the diagnostic, and nothing is left
behind that a later step would have made. Where none fails, the session has done what
the build of its configuration does.
-/
namespace CompilerDriver

/-- The steps of a session in their order. The last three are those of the build. -/
inductive SessionStep where
  | directory
  | settings
  | inputs
  | planning
  | assembly
  | execution
  deriving DecidableEq

namespace SessionStep

/-- The code under which a failure of the step is reported. -/
def code? : SessionStep → Option String
  | directory => none
  | settings => some "alleycat::config_file"
  | inputs => some "alleycat::input"
  | planning => some "alleycat::configuration"
  | assembly => some "alleycat::construction"
  | execution => some "alleycat::execution"

theorem eq_of_code?_eq {step step' : SessionStep} (h : step.code? = step'.code?) :
    step = step' := by
  cases step <;> cases step' <;> simp_all [code?]

end SessionStep

/-- The code of the diagnostic of an error. -/
def SessionError.code? (e : SessionError) : Option String := e.diagnostic?.map fun d => d.kind.code

theorem SessionError.code?_pipeline (e : PipelineError) :
    (SessionError.pipeline e).code? = some (DiagnosticKind.ofCategory e.category).code := rfl

/-- The session goes on in this working directory. -/
inductive Invocation.Enters (i : Invocation) (fs : FileSystem) : FileSystem → Prop where
  | stays : i.directory = none → Enters i fs fs
  | changes {dir : Path} {entered : FileSystem} : i.directory = some dir →
      fs.changeDir dir = .ok entered → Enters i fs entered

/-- The directory is entered, and the settings there give this configuration. -/
structure Invocation.Configures (env : Environment) (i : Invocation) (fs entered : FileSystem)
    (c : Config) : Prop where
  enters : i.Enters fs entered
  loaded : ∃ settings, Settings.load env entered i.settingsFile = .ok settings ∧
    c = Config.layered settings env i.arguments i.verbose

/-- All steps before the build succeed. Inputs that are missing matter to a real build alone. -/
structure Invocation.Prepares (env : Environment) (i : Invocation) (fs entered : FileSystem)
    (c : Config) : Prop extends i.Configures env fs entered c where
  inputs : c.dryRun = false → ∀ p ∈ c.device.inputs ++ c.host.inputs, entered.contains p = true

namespace Session

variable (env : Environment) (runner : Runner) (i : Invocation) (fs : FileSystem)
  (names : NameSupply)

/-- A step is reached and fails with an error. -/
inductive FailsAt : SessionStep → SessionError → Prop where
  | directory {dir : Path} {source : SystemError} : i.directory = some dir →
      fs.changeDir dir = .error source → FailsAt .directory (.io source)
  | settings {entered : FileSystem} {e : SettingsError} : i.Enters fs entered →
      Settings.load env entered i.settingsFile = .error e → FailsAt .settings (.settings e.text)
  /-- It is the first input that is missing. -/
  | inputs {entered : FileSystem} {c : Config} {before after : List Path} {p : Path} :
      i.Configures env fs entered c → c.dryRun = false →
      c.device.inputs ++ c.host.inputs = before ++ p :: after →
      (∀ q ∈ before, entered.contains q = true) → entered.contains p = false →
      FailsAt .inputs (.invalidInput ("Input file does not exist: " ++ p.display))
  | planning {entered : FileSystem} {c : Config} {e : PipelineError} :
      i.Prepares env fs entered c → StagePlan.resolve c = .error e →
      FailsAt .planning (.pipeline e)
  | assembly {entered : FileSystem} {c : Config} {stages : StagePlan} {e : PipelineError}
      {w : Workspace} : i.Prepares env fs entered c → StagePlan.resolve c = .ok stages →
      Build.assemble env stages c entered names = (.error e, w) → FailsAt .assembly (.pipeline e)
  | execution {entered : FileSystem} {c : Config} {stages : StagePlan} {plan : BuildPlan}
      {e : PipelineError} {w : Workspace} : i.Prepares env fs entered c →
      StagePlan.resolve c = .ok stages →
      Build.assemble env stages c entered names = (.ok plan, w) →
      (plan.actions.execute runner (.ofDryRun c.dryRun) { fs := w.fs }).1 = .error e →
      FailsAt .execution (.pipeline e)

/-- All steps of a session succeed. -/
inductive Succeeds : Prop where
  | intro {entered : FileSystem} {c : Config} {stages : StagePlan} {plan : BuildPlan}
      {completed : Nat} {w : Workspace} : i.Prepares env fs entered c →
      StagePlan.resolve c = .ok stages →
      Build.assemble env stages c entered names = (.ok plan, w) →
      (plan.actions.execute runner (.ofDryRun c.dryRun) { fs := w.fs }).1 = .ok completed →
      Succeeds

end Session

/-- A session ends with the error of a step and leaves nothing that a later step would have made. -/
structure SessionOutcome.StopsAt (o : SessionOutcome) (fs : FileSystem) (names : NameSupply)
    (step : SessionStep) (e : SessionError) : Prop where
  failure : o.failure = some e
  code : e.code? = step.code?
  reports : o.reports = []
  printed : o.printed = o.calls.flatMap Call.printed
  /-- Before execution no command is echoed or launched. -/
  calls : step ≠ .execution → o.calls = []
  /-- Before assembly no temporary is made. -/
  untouched : step ≠ .assembly → step ≠ .execution →
    o.temporaries = [] ∧ o.names = names ∧ ∀ loc, o.fs.node? loc = fs.node? loc
  /-- The call that has failed is the last one. -/
  halted : step = .execution → ∃ before command reply,
    o.calls = before ++ [.invoked command reply] ∧ (∀ call ∈ before, call.Succeeded) ∧
      reply.status ≠ .ok true

/-- A session has done what a build has done, and reports the outputs if it is to tell more than
errors. -/
structure SessionOutcome.Completes (o : SessionOutcome) (verbose : UInt8) (built : BuildOutcome)
    (summary : BuildSummary) : Prop where
  failure : o.failure = none
  fs : o.fs = built.fs
  names : o.names = built.names
  temporaries : o.temporaries = built.temporaries
  calls : o.calls = built.calls
  printed : o.printed = built.calls.flatMap Call.printed
  reports : o.reports = if verbose = 0 then [] else summary.plan.reports
  stuck : o.stuck = built.stuck
  notices : o.notices = built.notices

namespace SessionOutcome

variable {o : SessionOutcome}

theorem exitCode_eq_zero_iff : o.exitCode = 0 ↔ o.failure = none := by
  unfold exitCode
  cases o.failure <;> simp

theorem exitCode_eq_one_iff : o.exitCode = 1 ↔ ∃ e, o.failure = some e := by
  unfold exitCode
  cases o.failure <;> simp

end SessionOutcome

namespace Invocation

variable {env : Environment} {i : Invocation} {fs entered : FileSystem} {c : Config}

theorem Enters.enter_eq (h : i.Enters fs entered) : Session.enter i fs = .ok entered := by
  cases h with
  | stays hnone => rw [Session.enter, hnone]
  | changes hdir hchange =>
    rw [Session.enter, hdir]
    dsimp only
    rw [hchange]
    rfl

/-- To enter a directory changes nothing in the file system. -/
theorem Enters.node?_eq (h : i.Enters fs entered) (loc : Location) :
    entered.node? loc = fs.node? loc := by
  cases h with
  | stays => rfl
  | @changes dir _ _ hchange =>
    unfold FileSystem.changeDir at hchange
    rcases hf : fs.find dir with e | ⟨found, _ | _ | _⟩
    all_goals
      rw [hf] at hchange
      cases hchange
    rfl

theorem Configures.prepare_eq (h : i.Configures env fs entered c) :
    Session.prepare env i fs = (Session.checkInputs c entered).map fun _ => (c, entered) := by
  obtain ⟨henters, settings, hload, rfl⟩ := h
  unfold Session.prepare
  rw [henters.enter_eq]
  dsimp only [bind, Except.bind]
  rw [hload]
  dsimp only [Except.mapError]
  cases Session.checkInputs (Config.layered settings env i.arguments i.verbose) entered <;> rfl

theorem Prepares.prepare_eq (h : i.Prepares env fs entered c) :
    Session.prepare env i fs = .ok (c, entered) := by
  have hchecked : Session.checkInputs c entered = .ok () := by
    unfold Session.checkInputs
    cases hd : c.dryRun with
    | true => rfl
    | false =>
      have hnone : (c.device.inputs ++ c.host.inputs).find? (fun p => !entered.contains p) = none :=
        List.find?_eq_none.mpr fun p hp => by simp [h.inputs hd p hp]
      rw [hnone]
      rfl
  rw [h.toConfigures.prepare_eq, hchecked]
  rfl

end Invocation

namespace Session

variable {env : Environment} {runner : Runner} {i : Invocation} {fs entered : FileSystem}
  {names : NameSupply} {c : Config} {step : SessionStep} {e : SessionError}

theorem checkInputs_eq_error {before after : List Path} {p : Path} (hd : c.dryRun = false)
    (hsplit : c.device.inputs ++ c.host.inputs = before ++ p :: after)
    (hbefore : ∀ q ∈ before, fs.contains q = true) (hp : fs.contains p = false) :
    checkInputs c fs = .error (.invalidInput ("Input file does not exist: " ++ p.display)) := by
  have hnone : before.find? (fun q => !fs.contains q) = none :=
    List.find?_eq_none.mpr fun q hq => by simp [hbefore q hq]
  rw [checkInputs, hd, hsplit, List.find?_append, hnone, List.find?_cons_of_pos (by simp [hp])]
  rfl

/-- A session whose preparation fails leaves everything as it is. -/
theorem stopsAt_of_prepare_error (h : prepare env i fs = .error e) (hc : e.code? = step.code?)
    (hs : step ≠ .execution) : (run env runner i fs names).StopsAt fs names step e := by
  rw [run, h]
  exact ⟨rfl, hc, rfl, rfl, fun _ => rfl, fun _ _ => ⟨rfl, rfl, fun _ => rfl⟩,
    fun he => absurd he hs⟩

section Prepared

variable {w : Workspace} {stages : StagePlan} {plan : BuildPlan} {error : PipelineError}

theorem stopsAt_planning (h : i.Prepares env fs entered c)
    (hr : StagePlan.resolve c = .error error) :
    (run env runner i fs names).StopsAt fs names .planning (.pipeline error) := by
  have hcode : (SessionError.pipeline error).code? = SessionStep.planning.code? := by
    rw [SessionError.code?_pipeline, StagePlan.category_of_resolve_error hr]
    rfl
  rw [run, h.prepare_eq]
  dsimp only
  rw [Build.run_eq_of_resolve_error hr]
  exact ⟨rfl, hcode, rfl, rfl, fun _ => rfl, fun _ _ => ⟨rfl, rfl, h.enters.node?_eq⟩, nofun⟩

theorem stopsAt_assembly (h : i.Prepares env fs entered c)
    (hr : StagePlan.resolve c = .ok stages)
    (ha : Build.assemble env stages c entered names = (.error error, w)) :
    (run env runner i fs names).StopsAt fs names .assembly (.pipeline error) := by
  have hcode : (SessionError.pipeline error).code? = SessionStep.assembly.code? := by
    rw [SessionError.code?_pipeline, Build.category_of_assemble_error hr ha]
    rfl
  rw [run, h.prepare_eq]
  dsimp only
  rw [Build.run_eq_of_assemble_error hr ha]
  exact ⟨rfl, hcode, rfl, rfl, fun _ => rfl, fun hs => absurd rfl hs, nofun⟩

theorem stopsAt_execution (h : i.Prepares env fs entered c)
    (hr : StagePlan.resolve c = .ok stages)
    (ha : Build.assemble env stages c entered names = (.ok plan, w))
    (he : (plan.actions.execute runner (.ofDryRun c.dryRun) { fs := w.fs }).1 = .error error) :
    (run env runner i fs names).StopsAt fs names .execution (.pipeline error) := by
  have hresult : (Build.run env runner c entered names).result = .error error := by
    rw [Build.run_eq_of_assemble_ok hr ha]
    exact Build.finish_of_error runner c _ he
  have hx : Executes _ _ (Build.run env runner c entered names).calls _ := Build.executes_run hr ha
  rw [he] at hx
  obtain ⟨-, -, a, -, before, reply, -, hcalls, -, hbefore, hfailure⟩ := hx.exists_stopped_of_error
  have hcode : (SessionError.pipeline error).code? = SessionStep.execution.code? := by
    rw [SessionError.code?_pipeline, Action.category_of_failure? hfailure]
    rfl
  rw [run, h.prepare_eq]
  dsimp only
  rw [hresult]
  refine ⟨rfl, hcode, rfl, rfl, fun hs => absurd rfl hs, fun _ hs => absurd rfl hs, fun _ => ?_⟩
  refine ⟨before, a.command, reply, hcalls, hbefore, fun hs => ?_⟩
  rw [Action.failure?_eq_none_iff.mpr hs] at hfailure
  cases hfailure

end Prepared

theorem FailsAt.stopsAt (h : FailsAt env runner i fs names step e) :
    (run env runner i fs names).StopsAt fs names step e := by
  cases h with
  | directory hdir hchange =>
    refine stopsAt_of_prepare_error ?_ rfl nofun
    unfold prepare enter
    rw [hdir]
    dsimp only
    rw [hchange]
    rfl
  | settings henters hload =>
    refine stopsAt_of_prepare_error ?_ rfl nofun
    unfold prepare
    rw [henters.enter_eq]
    dsimp only [bind, Except.bind]
    rw [hload]
    rfl
  | inputs h hd hsplit hbefore hp =>
    refine stopsAt_of_prepare_error ?_ rfl nofun
    rw [h.prepare_eq, checkInputs_eq_error hd hsplit hbefore hp]
    rfl
  | planning h hr => exact stopsAt_planning h hr
  | assembly h hr ha => exact stopsAt_assembly h hr ha
  | execution h hr ha he => exact stopsAt_execution h hr ha he

theorem completes_of_prepares {summary : BuildSummary} (h : i.Prepares env fs entered c)
    (hs : (Build.run env runner c entered names).result = .ok summary) :
    (run env runner i fs names).Completes i.verbose (Build.run env runner c entered names)
      summary := by
  rw [run, h.prepare_eq]
  dsimp only
  rw [hs]
  exact ⟨rfl, rfl, rfl, rfl, rfl, rfl, rfl, rfl, rfl⟩

theorem Succeeds.exists_result (h : Succeeds env runner i fs names) :
    ∃ entered c summary, i.Prepares env fs entered c ∧
      (Build.run env runner c entered names).result = .ok summary := by
  obtain ⟨hprepares, hr, ha, hx⟩ := h
  obtain ⟨summary, hresult⟩ := Build.finish_of_ok runner _ _ hx
  exact ⟨_, _, summary, hprepares, by rw [Build.run_eq_of_assemble_ok hr ha, hresult]⟩

theorem Succeeds.failure_eq_none (h : Succeeds env runner i fs names) :
    (run env runner i fs names).failure = none := by
  obtain ⟨entered, c, summary, hprepares, hs⟩ := h.exists_result
  exact (completes_of_prepares hprepares hs).failure

/-- Where no step before the build fails, the build is reached. -/
theorem exists_prepares_or_failsAt (env : Environment) (runner : Runner) (i : Invocation)
    (fs : FileSystem) (names : NameSupply) :
    (∃ entered c, i.Prepares env fs entered c) ∨
      ∃ step e, FailsAt env runner i fs names step e := by
  have henters : (∃ entered, i.Enters fs entered) ∨
      ∃ step e, FailsAt env runner i fs names step e := by
    cases hdir : i.directory with
    | none => exact Or.inl ⟨fs, .stays hdir⟩
    | some dir =>
      cases hchange : fs.changeDir dir with
      | error source => exact Or.inr ⟨_, _, .directory hdir hchange⟩
      | ok entered => exact Or.inl ⟨entered, .changes hdir hchange⟩
  obtain ⟨entered, henters⟩ | hfails := henters
  · cases hload : Settings.load env entered i.settingsFile with
    | error error => exact Or.inr ⟨_, _, .settings henters hload⟩
    | ok settings =>
      let c := Config.layered settings env i.arguments i.verbose
      have h : i.Configures env fs entered c := ⟨henters, settings, hload, rfl⟩
      cases hd : c.dryRun with
      | true => exact Or.inl ⟨entered, c, h, fun hreal => by rw [hd] at hreal; cases hreal⟩
      | false =>
        cases hfind : (c.device.inputs ++ c.host.inputs).find? (fun p => !entered.contains p) with
        | none =>
          rw [List.find?_eq_none] at hfind
          exact Or.inl ⟨entered, c, h, fun _ p hp => by simpa using hfind p hp⟩
        | some p =>
          obtain ⟨hp, before, after, hsplit, hbefore⟩ := List.find?_eq_some_iff_append.mp hfind
          refine Or.inr ⟨_, _, .inputs h hd hsplit (fun q hq => ?_) (by simpa using hp)⟩
          simpa using hbefore q hq
  · exact Or.inr hfails

/-- Either all steps succeed, or one is reached and fails. -/
theorem succeeds_or_exists_failsAt (env : Environment) (runner : Runner) (i : Invocation)
    (fs : FileSystem) (names : NameSupply) :
    Succeeds env runner i fs names ∨ ∃ step e, FailsAt env runner i fs names step e := by
  obtain ⟨entered, c, h⟩ | hfails := exists_prepares_or_failsAt env runner i fs names
  · cases hr : StagePlan.resolve c with
    | error error => exact Or.inr ⟨_, _, .planning h hr⟩
    | ok stages =>
      rcases ha : Build.assemble env stages c entered names with ⟨error | plan, w⟩
      · exact Or.inr ⟨_, _, .assembly h hr ha⟩
      · cases hx : (plan.actions.execute runner (.ofDryRun c.dryRun) { fs := w.fs }).1 with
        | error error => exact Or.inr ⟨_, _, .execution h hr ha hx⟩
        | ok completed => exact Or.inl (.intro h hr ha hx)
  · exact Or.inr hfails

/-- The steps that succeed and fail determine how a session ends. -/
structure RunsInSteps (env : Environment) (runner : Runner) (i : Invocation) (fs : FileSystem)
    (names : NameSupply) (o : SessionOutcome) : Prop where
  succeeded : o.exitCode = 0 ↔ Succeeds env runner i fs names
  failed : o.exitCode = 1 ↔ ∃ step e, FailsAt env runner i fs names step e
  /-- No error is reported but that of a step that has failed. -/
  failure : ∀ e, o.failure = some e ↔ ∃ step, FailsAt env runner i fs names step e
  unique : ∀ step e step' e', FailsAt env runner i fs names step e →
    FailsAt env runner i fs names step' e' → step = step' ∧ e = e'
  stops : ∀ step e, FailsAt env runner i fs names step e → o.StopsAt fs names step e
  /-- Where all steps succeed, the session is the build of the configuration it has prepared. -/
  completes : Succeeds env runner i fs names → ∃ entered c summary,
    i.Prepares env fs entered c ∧ (Build.run env runner c entered names).result = .ok summary ∧
      o.Completes i.verbose (Build.run env runner c entered names) summary
  /-- Temporaries are made by assembly and never later. -/
  temporaries : ∀ entered c stages, i.Prepares env fs entered c →
    StagePlan.resolve c = .ok stages →
    o.temporaries = (Build.assemble env stages c entered names).2.arena.paths

/-- For every invocation, environment, runner and file system. -/
theorem runsInSteps_run (env : Environment) (runner : Runner) (i : Invocation) (fs : FileSystem)
    (names : NameSupply) : RunsInSteps env runner i fs names (run env runner i fs names) := by
  have hcases := succeeds_or_exists_failsAt env runner i fs names
  have hfailure : ∀ e, (run env runner i fs names).failure = some e ↔
      ∃ step, FailsAt env runner i fs names step e := by
    intro e
    constructor
    · intro he
      obtain hs | ⟨step, e', h⟩ := hcases
      · rw [hs.failure_eq_none] at he
        cases he
      · rw [h.stopsAt.failure] at he
        cases he
        exact ⟨step, h⟩
    · rintro ⟨step, h⟩
      exact h.stopsAt.failure
  have hsucceeds : (run env runner i fs names).failure = none ↔
      Succeeds env runner i fs names := by
    refine ⟨fun hnone => hcases.resolve_right ?_, Succeeds.failure_eq_none⟩
    rintro ⟨step, e, h⟩
    rw [h.stopsAt.failure] at hnone
    cases hnone
  refine
    { succeeded := SessionOutcome.exitCode_eq_zero_iff.trans hsucceeds
      failed := ?_
      failure := hfailure
      unique := ?_
      stops := fun step e h => h.stopsAt
      completes := fun h => ?_
      temporaries := ?_ }
  · rw [SessionOutcome.exitCode_eq_one_iff, exists_comm]
    exact exists_congr hfailure
  · intro step e step' e' h h'
    have he : e = e' := Option.some.inj (h.stopsAt.failure.symm.trans h'.stopsAt.failure)
    refine ⟨SessionStep.eq_of_code?_eq ?_, he⟩
    rw [← h.stopsAt.code, ← h'.stopsAt.code, he]
  · obtain ⟨entered, c, summary, hprepares, hs⟩ := h.exists_result
    exact ⟨entered, c, summary, hprepares, hs, completes_of_prepares hprepares hs⟩
  · intro entered c stages h hr
    have hmade : (Build.run env runner c entered names).temporaries = _ :=
      Build.temporaries_run hr
    rw [← hmade, run, h.prepare_eq]

end Session

end CompilerDriver
