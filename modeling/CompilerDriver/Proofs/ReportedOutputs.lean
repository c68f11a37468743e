import CompilerDriver.Proofs.DryRun
import CompilerDriver.Proofs.FinalOutputs
import CompilerDriver.Session

/-!
# What a build reports

A report looks for the output of a pipeline in the plan that has been run: at the
combined unit, if there is one, and else at the first unit. These are the carriers
of the pipeline, and what they have come to in the end is what the last stage has
written. So the report names the configured outputs.
-/
namespace CompilerDriver

theorem CompilationUnit.toOption_currentOutput (u : CompilationUnit) :
    u.currentOutput.toOption = u.current := by
  unfold currentOutput
  cases u.current <;> rfl

namespace BuildPlan

/-- The report looks at the first of the carriers. -/
theorem reportedOutput?_eq (plan : BuildPlan) (p : Pipeline) :
    plan.reportedOutput? p = (plan.pipeline p).carriers.head?.bind (·.current) := by
  have hfirst : (plan.pipeline p).combined.or (plan.pipeline p).units.head? =
      (plan.pipeline p).carriers.head? := by
    unfold PipelineUnits.carriers
    cases (plan.pipeline p).combined <;> rfl
  rw [reportedOutput?, hfirst]
  simp only [CompilationUnit.toOption_currentOutput]

/-- The plan once its actions have been run. -/
def withActions (plan : BuildPlan) (actions : StageActions) : BuildPlan :=
  { plan with actions := actions }

@[simp] theorem pipeline_withActions (plan : BuildPlan) (actions : StageActions) (p : Pipeline) :
    (plan.withActions actions).pipeline p = plan.pipeline p := by
  cases p <;> rfl

@[simp] theorem actions_withActions (plan : BuildPlan) (actions : StageActions) :
    (plan.withActions actions).actions = actions := rfl

theorem reportedOutput?_withActions (plan : BuildPlan) (actions : StageActions) (p : Pipeline) :
    (plan.withActions actions).reportedOutput? p = plan.reportedOutput? p := by
  rw [reportedOutput?, pipeline_withActions, reportedOutput?]

end BuildPlan

/-- Where the carriers of a pipeline have come to a front, the report names its first artifact. -/
theorem AssemblyContext.Ready.reportedOutput? {ctx : AssemblyContext} {p : Pipeline}
    {done : List Stage} {plan : BuildPlan} {front : List Path}
    (h : AssemblyContext.Ready ctx p done plan front) (hd : done ≠ []) :
    plan.reportedOutput? p = front.head? := by
  have hhead := congrArg List.head? (h.current hd)
  rw [List.head?_map, List.head?_map] at hhead
  rw [BuildPlan.reportedOutput?_eq]
  cases hc : (plan.pipeline p).carriers.head? with
  | none =>
    rw [hc, Option.map_none, eq_comm, Option.map_eq_none_iff] at hhead
    exact hhead.symm
  | some u =>
    rw [hc, Option.map_some, eq_comm, Option.map_eq_some_iff] at hhead
    obtain ⟨q, hq, hu⟩ := hhead
    rw [hq, hu]
    rfl

/-- A pipeline with an output has an action at the last stage that writes it. -/
theorem Assembled.exists_final_action {ctx : AssemblyContext} {plan : BuildPlan}
    {paths : List Path} {before : List Round} {final : Round} {p : Pipeline} {path : Path}
    (h : Assembled ctx plan paths before final) (ho : (ctx.config.pipeline p).output = some path) :
    ∃ i, plan.Owns p ⟨ctx.stages.last, i⟩ ∧
      ((plan.actions.stage ctx.stages.last).map (·.binding.output))[i]? = some path := by
  have hactive : p ∈ ctx.config.activePipelines := by
    refine List.mem_filter.mpr ⟨p.mem_all, ?_⟩
    rw [← h.accepted.output p, ho]
    rfl
  obtain ⟨i, hi, hp⟩ := List.getElem_of_mem hactive
  have hi' : i < final.actions.length := h.forall₂_actions_final.length_eq ▸ hi
  have hfinal := h.forall₂_actions_final.get hi hi'
  rw [List.get_eq_getElem, List.get_eq_getElem, hp, ho] at hfinal
  refine ⟨i, (h.owns_last_iff i p).mpr (List.getElem?_eq_some_iff.mpr ⟨hi, hp⟩), ?_⟩
  rw [h.stage_last, List.getElem?_map, List.getElem?_eq_getElem hi', Option.map_some, hfinal]

theorem Action.binding_run (runner : Runner) (mode : RunMode) (a : Action) (s : RunnerState) :
    (a.run runner mode s).2.1.binding = a.binding := by
  unfold run
  split
  · rfl
  · cases mode with
    | dryRun => rfl
    | execute => rcases s.invoke runner a.command with ⟨_ | _ | _, _⟩ <;> rfl

namespace StageActions

variable (t : StageActions) (runner : Runner) (mode : RunMode) (s : RunnerState)

/-- Running the actions does not change what the actions of a stage are to write. -/
theorem map_output_stage_execute (stage : Stage) :
    ((t.execute runner mode s).2.1.stage stage).map (·.binding.output) =
      (t.stage stage).map (·.binding.output) :=
  map_stage_runStages runner mode
    (fun a s => congrArg Binding.output (a.binding_run runner mode s)) Stage.all t s stage

theorem map_output_before_execute (stage : Stage) :
    ((t.execute runner mode s).2.1.before stage).map (·.binding.output) =
      (t.before stage).map (·.binding.output) := by
  rw [before, before, List.map_flatMap, List.map_flatMap]
  exact List.flatMap_congr fun r _ => map_output_stage_execute t runner mode s r

end StageActions

/-- The reports on a plan that has been run, with the temporaries that the run has made in a
directory of the file system there was at the start. -/
structure ReportsOutputs (fs : FileSystem) (dir : Path) (c : Config) (stages : StagePlan)
    (plan : BuildPlan) (temporaries : List Path) : Prop where
  combined : ∀ p, (plan.pipeline p).combined.isSome = true ↔
    (c.pipeline p).inputs ≠ [] ∧ stages.isActive .link = true
  reported : ∀ p, (plan.reportedOutput? p).isSome = true ↔ (c.pipeline p).inputs ≠ []
  configured : ∀ p, plan.reportedOutput? p = (c.pipeline p).output
  /-- An action of the pipeline at the last stage writes what is reported. -/
  written : ∀ p path, plan.reportedOutput? p = some path →
    ∃ i, plan.Owns p ⟨stages.last, i⟩ ∧
      (plan.actions.get? ⟨stages.last, i⟩).map (·.binding.output) = some path
  /-- The temporaries are what the stages before the last one write. -/
  earlier : (plan.actions.before stages.last).map (·.binding.output) = temporaries
  /-- No temporary is reported, by its path or by another path that leads to it, if the configured
  output is there at the start, or is not called like a temporary of the directory. -/
  apart : ∀ p output, (c.pipeline p).output = some output →
    (fs.node? (fs.place output) ≠ none ∨ ¬ TemporaryPlace fs dir (fs.place output)) →
    ∀ path, plan.reportedOutput? p = some path →
      path ∉ temporaries ∧ fs.place path ∉ temporaries.map Path.location
  lines : plan.reports = Pipeline.all.filterMap fun p => (c.pipeline p).output.map fun output =>
    "✓ " ++ p.name ++ " output written to " ++ output.display

namespace Build

variable {env : Environment} {runner : Runner} {c : Config} {fs : FileSystem} {names : NameSupply}
  {stages : StagePlan} {plan : BuildPlan} {w : Workspace} {summary : BuildSummary}

/-- A build that succeeds has planned and assembled, and has run what it has assembled. -/
theorem exists_of_run_ok (hs : (run env runner c fs names).result = .ok summary) :
    ∃ stages plan w, StagePlan.resolve c = .ok stages ∧
      assemble env stages c fs names = (.ok plan, w) ∧
      summary.plan = plan.withActions
        (plan.actions.execute runner (.ofDryRun c.dryRun) { fs := w.fs }).2.1 := by
  cases hr : StagePlan.resolve c with
  | error e =>
    rw [(run_of_resolve_error hr).1] at hs
    cases hs
  | ok stages =>
    rcases ha : assemble env stages c fs names with ⟨e | plan, w⟩
    · rw [(run_of_assemble_error hr ha).1] at hs
      cases hs
    · exact ⟨stages, plan, w, rfl, ha, plan_summary hr ha hs⟩

/-- Running the actions of a plan does not change what is reported. -/
theorem reportsOutputs_withActions {ctx : AssemblyContext} {w w' : Workspace}
    (ha : StagePlan.Accepted ctx.config ctx.stages) (hw : w.arena.paths = [])
    (h : (Assembler.standard.assemble ctx.settings ctx.stages).run w = (.ok plan, w'))
    (mode : RunMode) (s : RunnerState) :
    ReportsOutputs w.fs w.arena.dir ctx.config ctx.stages
      (plan.withActions (plan.actions.execute runner mode s).2.1) w'.arena.paths := by
  obtain ⟨before, final, hassembled⟩ := ctx.assembledIn_of_run_eq_ok ha hw h
  have hready := AssemblyContext.ready_of_run_eq_ok ctx ha h
  have hstages : ctx.stages.activeStages ≠ [] := by
    obtain ⟨rest, hrest⟩ := ha.exists_activeStages_eq
    rw [hrest]
    exact List.cons_ne_nil _ _
  have hconfigured : ∀ p, plan.reportedOutput? p = (ctx.config.pipeline p).output := fun p => by
    rw [(hready p).reportedOutput? hstages, Option.head?_toList]
  have hactive : ∀ p, (ctx.config.pipeline p).isActive = true ↔
      (ctx.config.pipeline p).inputs ≠ [] := fun p => by
    rw [PipelineConfig.isActive, Bool.not_eq_true', List.isEmpty_eq_false_iff]
  refine
    { combined := fun p => ?_
      reported := fun p => ?_
      configured := fun p => ?_
      written := fun p path hp => ?_
      earlier := ?_
      apart := fun p output ho hapart path hp => ?_
      lines := ?_ }
  · rw [BuildPlan.pipeline_withActions, (hready p).combined, Bool.and_eq_true, decide_eq_true_iff,
      StagePlan.mem_activeStages_iff, hactive, and_comm]
  · rw [BuildPlan.reportedOutput?_withActions, hconfigured, ha.output p, hactive]
  · rw [BuildPlan.reportedOutput?_withActions, hconfigured]
  · rw [BuildPlan.reportedOutput?_withActions, hconfigured] at hp
    obtain ⟨i, hi, ho⟩ := hassembled.exists_final_action hp
    refine ⟨i, ?_, ?_⟩
    · rw [BuildPlan.Owns, BuildPlan.pipeline_withActions]
      exact hi
    · rw [StageActions.get?, ← List.getElem?_map, BuildPlan.actions_withActions,
        StageActions.map_output_stage_execute]
      exact ho
  · rw [BuildPlan.actions_withActions, StageActions.map_output_before_execute,
      hassembled.before_last_eq, hassembled.paths_eq]
  · rw [BuildPlan.reportedOutput?_withActions, hconfigured] at hp
    obtain rfl : output = path := Option.some.inj (ho.symm.trans hp)
    exact hassembled.place_not_mem hapart
  · unfold BuildPlan.reports
    simp only [BuildPlan.reportedOutput?_withActions, hconfigured]

/-- A build that succeeds, with whatever runner, reports the configured outputs. -/
theorem reportsOutputs_of_run (hs : (run env runner c fs names).result = .ok summary) :
    ∃ stages, StagePlan.resolve c = .ok stages ∧
      ReportsOutputs fs (c.tempDir.getD env.tempDir) c stages summary.plan
        (run env runner c fs names).temporaries := by
  obtain ⟨stages, plan, w, hr, ha, hplan⟩ := exists_of_run_ok hs
  refine ⟨stages, hr, ?_⟩
  let ctx : AssemblyContext := ⟨⟨c, Toolchain.locate env fs c.toolchain⟩, stages⟩
  have haccepted : StagePlan.Accepted ctx.config ctx.stages := StagePlan.accepted_of_resolve hr
  rw [hplan, temporaries_run hr, ha]
  exact reportsOutputs_withActions haccepted rfl ha _ _

end Build

namespace Sample

/-- Every command succeeds and leaves the files alone. -/
def accepting : Runner := ⟨fun _ _ fs => ({ status := .ok true }, fs)⟩

/-- The sample with its temporaries in the root directory. -/
def inRoot : Config := { config with tempDir := some (.ofString "/") }

end Sample

namespace Build

theorem reportsOutputs_of_sample :
    ∃ summary, (run .none Sample.accepting Sample.inRoot {} (.ofSeed 0)).result = .ok summary ∧
      (∃ stages, StagePlan.resolve Sample.inRoot = .ok stages ∧
        ReportsOutputs {} (.ofString "/") Sample.inRoot stages summary.plan
          (run .none Sample.accepting Sample.inRoot {} (.ofSeed 0)).temporaries) ∧
      ∀ p path, summary.plan.reportedOutput? p = some path →
        path ∉ (run .none Sample.accepting Sample.inRoot {} (.ofSeed 0)).temporaries := by
  have hok : (run .none Sample.accepting Sample.inRoot {} (.ofSeed 0)).result.toBool = true := by
    decide +kernel
  have hnames : ∀ p ∈ Pipeline.all, ∀ output ∈ (Sample.inRoot.pipeline p).output,
      ∃ name ∈ output.fileName, ¬ Utf8.encode "ac" <+: name := by
    decide +kernel
  cases hs : (run .none Sample.accepting Sample.inRoot {} (.ofSeed 0)).result with
  | error e =>
    rw [hs] at hok
    cases hok
  | ok summary =>
    obtain ⟨stages, hr, h⟩ := reportsOutputs_of_run hs
    refine ⟨summary, rfl, ⟨stages, hr, h⟩, fun p path hp => ?_⟩
    have ho := (h.configured p).symm.trans hp
    obtain ⟨name, hname, hn⟩ := hnames p p.mem_all path ho
    exact (h.apart p path ho (Or.inr (FileSystem.not_temporaryPlace hname hn _)) path hp).1

end Build

end CompilerDriver
