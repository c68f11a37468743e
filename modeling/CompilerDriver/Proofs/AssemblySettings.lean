import CompilerDriver.Build

/-!
# What assembly takes from the configuration

Assembly looks at the pipelines, the toolchain, the database and the form of the
intermediate files. The options that ask for stages it never sees, nor does it
see whether the actions will be run: these have their effect in the stage plan
and in execution.
-/
namespace CompilerDriver

/-- The settings tell assembly the same. -/
structure BuildSettings.SameJobs (s s' : BuildSettings) : Prop where
  tools : s'.tools = s.tools
  device : s'.config.device = s.config.device
  host : s'.config.host = s.config.host
  toolchain : s'.config.toolchain = s.config.toolchain
  database : s'.config.database = s.config.database
  emitIntermediate : s'.config.stages.emitIntermediate = s.config.stages.emitIntermediate

namespace BuildSettings.SameJobs

variable {s s' : BuildSettings} (h : s.SameJobs s')

include h

theorem pipeline (p : Pipeline) : s'.config.pipeline p = s.config.pipeline p := by
  cases p with
  | device => exact h.device
  | host => exact h.host

theorem template (fs : FileSystem) (kind : ActionKind) :
    s'.template fs kind = s.template fs kind := by
  have hlibrary : s'.deviceLibrary fs = s.deviceLibrary fs := by
    unfold deviceLibrary
    rw [h.toolchain, h.device]
  have hpass (kind : ActionKind) (plugin : String) : s'.pass kind plugin = s.pass kind plugin := by
    unfold pass
    rw [h.database, h.tools, h.toolchain]
  unfold BuildSettings.template
  simp only [hlibrary, hpass, h.tools, h.toolchain, h.device, h.host]

theorem build (fs : FileSystem) (kind : ActionKind) (units : List CompilationUnit) :
    Action.build s' fs kind units = Action.build s fs kind units := by
  unfold Action.build
  rw [h.template]

end BuildSettings.SameJobs

def Config.setStages (c : Config) (o : StageOptions) : Config := { c with stages := o }

/-- Of the options that ask for stages, assembly sees the form of the intermediate files. -/
theorem Config.sameJobs_setStages {c : Config} {o : StageOptions} (env : Environment)
    (fs : FileSystem) (h : o.emitIntermediate = c.stages.emitIntermediate) :
    BuildSettings.SameJobs ⟨c, Toolchain.locate env fs c.toolchain⟩
      ⟨c.setStages o, Toolchain.locate env fs (c.setStages o).toolchain⟩ :=
  ⟨rfl, rfl, rfl, rfl, rfl, h⟩

namespace AssemblyContext

open BuildSettings (SameJobs)

variable {settings settings' : BuildSettings} {stages : StagePlan} {p : Pipeline} {s : Stage}

theorem finalOutput_congr (h : settings.SameJobs settings') :
    finalOutput ⟨settings', stages⟩ p = finalOutput ⟨settings, stages⟩ p := by
  unfold finalOutput config
  rw [h.pipeline]

theorem tempFormat_congr (h : settings.SameJobs settings') (stages stages' : StagePlan) :
    tempFormat ⟨settings', stages'⟩ s = tempFormat ⟨settings, stages⟩ s := by
  unfold tempFormat config
  rw [h.emitIntermediate]

theorem buildAction_congr (h : settings.SameJobs settings') :
    buildAction ⟨settings', stages⟩ = buildAction ⟨settings, stages⟩ := by
  funext kind units
  unfold buildAction
  simp only [h.build]

theorem assembleUnit_congr (h : settings.SameJobs settings') :
    assembleUnit ⟨settings', stages⟩ = assembleUnit ⟨settings, stages⟩ := by
  funext p s final extension u actions
  unfold assembleUnit
  rw [buildAction_congr h]

theorem assembleUnits_congr (h : settings.SameJobs settings') (final : Option Path)
    (extension : String) (units : List CompilationUnit) (actions : StageActions) :
    assembleUnits ⟨settings', stages⟩ p s final extension units actions =
      assembleUnits ⟨settings, stages⟩ p s final extension units actions := by
  induction units generalizing actions with
  | nil => rfl
  | cons u rest ih =>
    unfold assembleUnits
    rw [assembleUnit_congr h]
    simp only [ih]

theorem perUnit_congr (h : settings.SameJobs settings') (plan : BuildPlan) :
    perUnit ⟨settings', stages⟩ s p plan = perUnit ⟨settings, stages⟩ s p plan := by
  unfold perUnit
  simp only [assembleUnits_congr h, finalOutput_congr h, tempFormat_congr h stages stages]

theorem link_congr (h : settings.SameJobs settings') (plan : BuildPlan) :
    link ⟨settings', stages⟩ p plan = link ⟨settings, stages⟩ p plan := by
  unfold link
  rw [finalOutput_congr h, tempFormat_congr h stages stages, buildAction_congr h]

theorem carrier_congr (h : settings.SameJobs settings') (plan : BuildPlan) :
    carrier ⟨settings', stages⟩ s p plan = carrier ⟨settings, stages⟩ s p plan := by
  unfold carrier
  rw [finalOutput_congr h, assembleUnit_congr h]

end AssemblyContext

namespace StageAssembler

variable {settings settings' : BuildSettings} {stages : StagePlan}

theorem run_congr (h : settings.SameJobs settings') (a : StageAssembler) (p : Pipeline)
    (plan : BuildPlan) : a.run ⟨settings', stages⟩ p plan = a.run ⟨settings, stages⟩ p plan := by
  cases a with
  | perUnit s => exact AssemblyContext.perUnit_congr h plan
  | link => exact AssemblyContext.link_congr h plan
  | carrier s => exact AssemblyContext.carrier_congr h plan

theorem runPipelines_congr (h : settings.SameJobs settings') (a : StageAssembler)
    (plan : BuildPlan) :
    a.runPipelines ⟨settings', stages⟩ plan = a.runPipelines ⟨settings, stages⟩ plan := by
  unfold runPipelines
  simp only [a.run_congr h]

end StageAssembler

/-- Settings that tell assembly the same lead to the same actions, whatever the assembler. -/
theorem Assembler.assemble_congr {settings settings' : BuildSettings}
    (h : settings.SameJobs settings') (a : Assembler) (stages : StagePlan) :
    a.assemble settings' stages = a.assemble settings stages := by
  have hinitial : BuildPlan.initial stages settings'.config = .initial stages settings.config := by
    unfold BuildPlan.initial
    rw [h.device, h.host]
  unfold assemble
  rw [hinitial]
  simp only [StageAssembler.runPipelines_congr h]

end CompilerDriver
