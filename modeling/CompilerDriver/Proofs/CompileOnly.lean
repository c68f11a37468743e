import CompilerDriver.Arguments
import CompilerDriver.Proofs.AssemblySettings
import CompilerDriver.Proofs.ComparedRuns

/-!
# Stopping after compile

To stop after compile is to stop before link and to leave out both passes. The
options that ask for the one or for the other make configurations that differ in
their text, and are the same to planning, to assembly and to a whole build.
-/
namespace CompilerDriver

/-- The options ask for the same stages and for intermediate files of one form. -/
structure StageOptions.SameStages (o o' : StageOptions) : Prop where
  requested : StagePlan.requested o' = StagePlan.requested o
  emitIntermediate : o'.emitIntermediate = o.emitIntermediate
  backendStages : o'.backendStages = o.backendStages

namespace StagePlan

variable {o o' : StageOptions}

theorem backendWithheld_congr (h : o.SameStages o') : backendWithheld o' = backendWithheld o := by
  unfold backendWithheld
  rw [h.requested, h.backendStages]

theorem ofOptions_congr (h : o.SameStages o') : ofOptions o' = ofOptions o := by
  unfold ofOptions
  rw [backendWithheld_congr h, h.requested]

theorem resolve_setStages {c : Config} (h : c.stages.SameStages o) :
    resolve (c.setStages o) = resolve c := by
  have hplan : ofOptions (c.setStages o).stages = ofOptions c.stages := ofOptions_congr h
  have hvalidate (plan : StagePlan) : plan.validate (c.setStages o) = plan.validate c := by
    unfold validate Config.setStages
    rw [h.emitIntermediate]
  unfold resolve
  simp only [hplan, hvalidate]

end StagePlan

namespace Build

/-- Both runs of assembly end in the same error, or in plans that are the same up to the tokens of
their temporaries. -/
inductive EndsAlike (fs : FileSystem) (dir : Path) (files : List Path) :
    Except PipelineError BuildPlan × Workspace → Except PipelineError BuildPlan × Workspace → Prop
    where
  | refused {e : PipelineError} {w w' : Workspace} :
      EndsAlike fs dir files (.error e, w) (.error e, w')
  | assembled {plan plan' : BuildPlan} {w w' : Workspace} :
      List.Forall₂ (Twins fs dir) w.arena.paths w'.arena.paths →
      (∀ s, List.Forall₂ (Action.Alike (SameFile files w.arena.paths w'.arena.paths))
        (plan.actions.stage s) (plan'.actions.stage s)) →
      EndsAlike fs dir files (.ok plan, w) (.ok plan', w')

/-- The configurations are the same to planning, to assembly, and to a build as a whole. -/
structure SameBuild (c c' : Config) : Prop where
  resolve : StagePlan.resolve c' = StagePlan.resolve c
  assemble : ∀ env stages fs names, assemble env stages c' fs names = assemble env stages c fs names
  /-- Other tokens make no other difference, unless an allocation is refused. -/
  renamed : ∀ env stages fs names names', StagePlan.resolve c = .ok stages →
    ¬ AllocationFails (Build.assemble env stages c fs names) →
    ¬ AllocationFails (Build.assemble env stages c' fs names') →
    EndsAlike fs (c.tempDir.getD env.tempDir) c.files (Build.assemble env stages c fs names)
      (Build.assemble env stages c' fs names')
  run : ∀ env runner fs names, run env runner c' fs names = run env runner c fs names

variable {c : Config} {o : StageOptions} {env : Environment} {stages : StagePlan}
  {fs : FileSystem} {names names' : NameSupply}

theorem assemble_setStages (h : c.stages.SameStages o) :
    assemble env stages (c.setStages o) fs names = assemble env stages c fs names := by
  have hjobs := c.sameJobs_setStages env fs h.emitIntermediate
  exact congrArg (fun m : AssemblyM BuildPlan => m.run _)
    (Assembler.standard.assemble_congr hjobs stages)

theorem run_setStages (h : c.stages.SameStages o) (runner : Runner) :
    run env runner (c.setStages o) fs names = run env runner c fs names := by
  have hnotices : StagePlan.notices (c.setStages o).stages = StagePlan.notices c.stages := by
    unfold StagePlan.notices
    exact congrArg (fun withheld : Bool => if withheld then [Notice.backendDisabled] else [])
      (StagePlan.backendWithheld_congr h)
  unfold run
  rw [hnotices, StagePlan.resolve_setStages h]
  simp only [assemble_setStages h]
  rfl

/-- Where nothing is linked, the tokens of the temporaries are all that two runs can differ in. -/
theorem endsAlike_of_resolve (hr : StagePlan.resolve c = .ok stages)
    (hlink : stages.isActive .link = false)
    (hn : ¬ AllocationFails (assemble env stages c fs names))
    (hn' : ¬ AllocationFails (assemble env stages c fs names')) :
    EndsAlike fs (c.tempDir.getD env.tempDir) c.files (assemble env stages c fs names)
      (assemble env stages c fs names') := by
  obtain ⟨e, w, w', ha, ha'⟩ | ⟨plan, plan', w, w', ha, ha'⟩ := assemble_ends_alike hr hn hn'
  · rw [ha, ha']
    exact .refused
  · rw [ha, ha']
    obtain ⟨before, final, h⟩ := assembledIn_of_assemble hr ha
    obtain ⟨before', final', h'⟩ := assembledIn_of_assemble hr ha'
    refine .assembled (forall₂_twins hr ha ha') fun s => ?_
    refine h.forall₂_stage h' rfl (fun p => .refl p _) (fun hactive => ?_) s
    have hinactive : stages.isActive .link = true := hactive
    rw [hlink] at hinactive
    cases hinactive

theorem sameBuild_setStages (h : c.stages.SameStages o)
    (hlink : (StagePlan.ofOptions c.stages).isActive .link = false) :
    SameBuild c (c.setStages o) where
  resolve := StagePlan.resolve_setStages h
  assemble := fun _ _ _ _ => assemble_setStages h
  renamed := by
    intro env stages fs names names' hr hn hn'
    rw [assemble_setStages h] at hn' ⊢
    rw [← (StagePlan.eq_ofOptions_of_resolve hr).1] at hlink
    exact endsAlike_of_resolve hr hlink hn hn'
  run := fun _ runner _ _ => run_setStages h runner

/-- Whatever the settings file, the environment and the other arguments say, to ask for compile
only is to ask for no link, no analysis and no transformation. -/
theorem sameBuild_onlyCompile (a : Arguments) (settings : Settings) (env : Environment)
    (verbose : UInt8) :
    SameBuild (.layered settings env { a with onlyCompile := true } verbose)
      (.layered settings env
        { a with compileAnalyzeTransformOnly := true, noAnalyze := true, noTransform := true }
        verbose) := by
  let c : Config := .layered settings env { a with onlyCompile := true } verbose
  let o : StageOptions := (Config.layered settings env
    { a with compileAnalyzeTransformOnly := true, noAnalyze := true, noTransform := true }
    verbose).stages
  have hsame : c.stages.SameStages o := by
    refine ⟨?_, rfl, rfl⟩
    simp [c, o, StagePlan.requested, Config.layered, Arguments.applyTo]
  have hlink : (StagePlan.ofOptions c.stages).isActive .link = false := by
    have hrequested : (StagePlan.requested c.stages).link = false := by
      simp [c, StagePlan.requested, Config.layered, Arguments.applyTo]
    unfold StagePlan.ofOptions
    split
    · exact hrequested
    · exact hrequested
  exact sameBuild_setStages hsame hlink

end Build

end CompilerDriver
