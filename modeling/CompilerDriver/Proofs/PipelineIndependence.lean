import CompilerDriver.Proofs.ComparedRuns

/-!
# The pipelines are independent

A build of both pipelines is the build of the device and the build of the host
side by side. Each of them alone is accepted with the same stages, succeeds as
it does together with the other, and makes the same actions. What is configured
for one pipeline is nowhere to be seen in the actions of the other.

There is one way from the host to the device: a temporary of the host can be
found for the device library. That takes a search directory that is the one of
the temporaries, and a target that is called like a temporary.
-/
namespace CompilerDriver

namespace Pipeline

def other : Pipeline → Pipeline
  | .device => .host
  | .host => .device

end Pipeline

namespace Config

/-- The configuration with only one pipeline to build. -/
def only (c : Config) (p : Pipeline) : Config := c.without p.other

variable {c : Config} {p : Pipeline}

theorem pipeline_setPipeline_other (c : Config) (p : Pipeline) (settings : PipelineConfig) :
    (c.setPipeline p.other settings).pipeline p = c.pipeline p := by
  cases p <;> rfl

theorem toolchain_setPipeline (c : Config) (p : Pipeline) (settings : PipelineConfig) :
    (c.setPipeline p settings).toolchain = c.toolchain := by
  cases p <;> rfl

theorem stages_setPipeline (c : Config) (p : Pipeline) (settings : PipelineConfig) :
    (c.setPipeline p settings).stages = c.stages := by
  cases p <;> rfl

theorem tempDir_setPipeline (c : Config) (p : Pipeline) (settings : PipelineConfig) :
    (c.setPipeline p settings).tempDir = c.tempDir := by
  cases p <;> rfl

/-- The configuration of one pipeline is no setting of the other. -/
theorem agreeOn_setPipeline (c : Config) (p : Pipeline) (settings : PipelineConfig)
    (env : Environment) (fs : FileSystem) :
    BuildSettings.AgreeOn p ⟨c, Toolchain.locate env fs c.toolchain⟩
      ⟨c.setPipeline p.other settings,
        Toolchain.locate env fs (c.setPipeline p.other settings).toolchain⟩ where
  tools := by rw [c.toolchain_setPipeline]
  pipeline := c.pipeline_setPipeline_other p settings
  toolchain := c.toolchain_setPipeline p.other settings
  stages := c.stages_setPipeline p.other settings
  database := by cases p <;> rfl

theorem inputs_only_other (c : Config) (p : Pipeline) :
    ((c.only p).pipeline p.other).inputs = [] := by
  cases p <;> rfl

theorem accepts_sources_only_iff (c : Config) (p : Pipeline) :
    (∀ source ∈ (c.only p).sources, source.1.AcceptsSource source.2) ↔
      ∀ q ∈ (c.pipeline p).inputs, p.AcceptsSource q := by
  cases p with
  | device => simp [only, without, setPipeline, sources, pipeline, Pipeline.other,
      PipelineConfig.emptied]
  | host => simp [only, without, setPipeline, sources, pipeline, Pipeline.other,
      PipelineConfig.emptied]

end Config

namespace StagePlan

variable {c : Config} {stages : StagePlan}

/-- Each of two pipelines is accepted alone, with the stages that it had with the other. -/
theorem resolve_only (hr : resolve c = .ok stages) (hp : ∀ p, (c.pipeline p).isActive = true)
    (p : Pipeline) : resolve (c.only p) = .ok stages := by
  obtain ⟨rfl, hv⟩ := eq_ofOptions_of_resolve hr
  have hdevice : c.device.isActive = true := hp .device
  have hhost : c.host.isActive = true := hp .host
  have hv' : (ofOptions c.stages).validate (c.only p) = .ok () := by
    simp only [validate, refuse_bind_eq_ok_iff, refuse_eq_ok_iff] at hv ⊢
    obtain ⟨-, hdout, hdnone, hhnone, hdatabase, hhout, hdmany, hhmany, hintermediate⟩ := hv
    cases p with
    | device =>
      refine ⟨?_, hdout, hdnone, rfl, hdatabase, rfl, hdmany, Bool.and_false _, hintermediate⟩
      change (!c.device.isActive && _) = false
      rw [hdevice]
      rfl
    | host =>
      refine ⟨?_, rfl, rfl, hhnone, hdatabase, hhout, Bool.and_false _, hhmany, hintermediate⟩
      change (_ && !c.host.isActive) = false
      rw [hhost]
      rfl
  have hstages : (c.only p).stages = c.stages := c.stages_setPipeline _ _
  unfold resolve
  dsimp only
  rw [hstages, hv']
  rfl

end StagePlan

/-- A pipeline that starts from nothing makes nothing. -/
theorem Strand.row_eq_nil {settings : BuildSettings} {p : Pipeline} {rounds : List Round}
    (h : Strand settings p [] rounds) : ∀ r ∈ rounds, r.row p = [] := by
  generalize hf : ([] : List Path) = front at h
  induction h with
  | nil => simp
  | @cons _ r _ hrow _ ih =>
    subst hf
    have hnil : r.row p = [] := by
      rw [← List.length_eq_zero_iff, hrow.length_eq, Stage.reads_nil, List.length_nil]
    refine List.forall_mem_cons.mpr ⟨hnil, ih ?_⟩
    rw [Round.outputs, hnil, List.map_nil]

/-- Where a pipeline has no inputs, all actions are those of the other one. -/
theorem Assembled.stage_eq_actionsOf {ctx : AssemblyContext} {plan : BuildPlan} {paths : List Path}
    {before : List Round} {final : Round} (h : Assembled ctx plan paths before final)
    {p : Pipeline} (hp : (ctx.config.pipeline p.other).inputs = []) (s : Stage) :
    plan.actions.stage s = plan.actionsOf p s := by
  have hnil : plan.actionsOf p.other s = [] := by
    cases hs : ctx.stages.isActive s with
    | false => exact h.actionsOf_eq_nil hs
    | true =>
      obtain ⟨r, hr, rfl⟩ := h.exists_round hs
      have hstrand := h.strand p.other
      rw [AssemblyContext.sourcePaths, hp] at hstrand
      rw [h.actionsOf_of_mem hr, hstrand.row_eq_nil r hr]
  rw [h.stage_eq_append]
  cases p with
  | device => exact (congrArg (plan.actionsOf .device s ++ ·) hnil).trans (List.append_nil _)
  | host => exact congrArg (· ++ plan.actionsOf .host s) hnil

namespace Build

/-- The two pipelines of a configuration, together and each alone. -/
structure PipelinesIndependent (env : Environment) (c : Config) (stages : StagePlan)
    (fs : FileSystem) : Prop where
  accepted : ∀ p, StagePlan.resolve (c.only p) = .ok stages
  /-- Where no allocation is refused, both succeed together exactly when each does alone. -/
  succeeds : ∀ (names : NameSupply) (own : Pipeline → NameSupply),
    ¬ AllocationFails (assemble env stages c fs names) →
    (∀ p, ¬ AllocationFails (assemble env stages (c.only p) fs (own p))) →
    ((∃ plan, (assemble env stages c fs names).1 = .ok plan) ↔
      ∀ p, ∃ plan, (assemble env stages (c.only p) fs (own p)).1 = .ok plan)
  /-- At every stage stand the actions of the device and then those of the host. Each part is the
  list that the pipeline has alone. -/
  joined : ∀ (names : NameSupply) (plan : BuildPlan) (w : Workspace),
    assemble env stages c fs names = (.ok plan, w) →
    (∀ s, plan.actions.stage s = plan.actionsOf .device s ++ plan.actionsOf .host s) ∧
    ∀ (p : Pipeline) (own : NameSupply) (alone : BuildPlan) (w' : Workspace),
      assemble env stages (c.only p) fs own = (.ok alone, w') →
      (∀ s, alone.actions.stage s = alone.actionsOf p s) ∧
        SamePart fs (c.tempDir.getD env.tempDir) c p plan alone
  /-- The actions of a pipeline stay the same, whatever is configured for the other one. -/
  unaffected : ∀ (p : Pipeline) (settings : PipelineConfig) (stages' : StagePlan)
    (names names' : NameSupply) (plan plan' : BuildPlan) (w w' : Workspace),
    StagePlan.resolve (c.setPipeline p.other settings) = .ok stages' →
    assemble env stages c fs names = (.ok plan, w) →
    assemble env stages' (c.setPipeline p.other settings) fs names' = (.ok plan', w') →
    SamePart fs (c.tempDir.getD env.tempDir) c p plan plan'

variable {env : Environment} {c : Config} {stages : StagePlan} {fs : FileSystem}
  {names names' : NameSupply} {plan plan' : BuildPlan} {w w' : Workspace} {p : Pipeline}

theorem samePart_of_setPipeline {settings : PipelineConfig} {stages' : StagePlan}
    (hr : StagePlan.resolve c = .ok stages)
    (hr' : StagePlan.resolve (c.setPipeline p.other settings) = .ok stages')
    (h : assemble env stages c fs names = (.ok plan, w))
    (h' : assemble env stages' (c.setPipeline p.other settings) fs names' = (.ok plan', w')) :
    SamePart fs (c.tempDir.getD env.tempDir) c p plan plan' := by
  obtain ⟨before, final, hrun⟩ := assembledIn_of_assemble hr h
  obtain ⟨before', final', hrun'⟩ := assembledIn_of_assemble hr' h'
  rw [c.tempDir_setPipeline] at hrun'
  have hstages : stages' = stages := by
    rw [(StagePlan.eq_ofOptions_of_resolve hr').1, (StagePlan.eq_ofOptions_of_resolve hr).1,
      c.stages_setPipeline]
  exact hrun.samePart hrun' hstages (c.agreeOn_setPipeline p settings env fs)

/-- For every configuration with inputs for both pipelines that planning accepts. -/
theorem pipelinesIndependent_of_resolve (hr : StagePlan.resolve c = .ok stages)
    (hp : ∀ p, (c.pipeline p).isActive = true) (env : Environment) (fs : FileSystem) :
    PipelinesIndependent env c stages fs := by
  have honly := StagePlan.resolve_only hr hp
  refine
    { accepted := honly
      succeeds := fun names own hn hown => ?_
      joined := fun names plan w h => ?_
      unaffected := fun p settings stages' names names' plan plan' w w' hr' h h' =>
        samePart_of_setPipeline hr hr' h h' }
  · rw [exists_assemble_eq_ok_iff hr hn, Config.firstRejected?_eq_none_iff]
    refine forall_congr' fun p => ?_
    rw [exists_assemble_eq_ok_iff (honly p) (hown p), Config.firstRejected?_eq_none_iff,
      ← Config.accepts_sources_iff, c.accepts_sources_only_iff]
  · obtain ⟨before, final, hrun⟩ := assembledIn_of_assemble hr h
    refine ⟨hrun.stage_eq_append, fun p own alone w' h' => ⟨?_, ?_⟩⟩
    · obtain ⟨before', final', hrun'⟩ := assembledIn_of_assemble (honly p) h'
      exact hrun'.stage_eq_actionsOf (c.inputs_only_other p)
    · exact samePart_of_setPipeline hr (honly p) h h'

end Build

namespace Sample

/-- The sample with its temporaries in the root directory, where it looks for its library too. -/
def rooted : Config :=
  { config with
    device := { config.device with libraryDirs := [.ofString "/"] }
    tempDir := some (.ofString "/") }

theorem exists_assemble_rooted :
    (∃ plan w, Build.assemble .none stages rooted {} (.ofSeed 0) = (.ok plan, w)) ∧
      ∃ alone w, Build.assemble .none stages (rooted.only .device) {} (.ofSeed 70) =
        (.ok alone, w) := by
  have hjoint : (Build.assemble .none stages rooted {} (.ofSeed 0)).1.toBool = true := by
    decide +kernel
  have halone : (Build.assemble .none stages (rooted.only .device) {} (.ofSeed 70)).1.toBool =
      true := by
    decide +kernel
  exact ⟨exists_eq_ok_of_toBool hjoint, exists_eq_ok_of_toBool halone⟩

end Sample

namespace Build

theorem pipelinesIndependent_of_sample :
    PipelinesIndependent .none Sample.rooted Sample.stages {} ∧
      Sample.rooted.KeepsLibrary {} (.ofString "/") ∧
      ∃ plan alone, SamePart {} (.ofString "/") Sample.rooted .device plan alone ∧
        ∀ s, alone.actions.stage s = alone.actionsOf .device s := by
  have hr : StagePlan.resolve Sample.rooted = .ok Sample.stages := rfl
  have h := pipelinesIndependent_of_resolve hr (fun p => by cases p <;> rfl) .none {}
  have hname : Sample.rooted.libraryFile.fileName = some (Utf8.encode "nvptx64--nvidiacl.bc") := by
    decide +kernel
  have hl : ¬ Utf8.encode "ac" <+: Utf8.encode "nvptx64--nvidiacl.bc" := by decide +kernel
  obtain ⟨⟨plan, w, hjoint⟩, alone, w', halone⟩ := Sample.exists_assemble_rooted
  obtain ⟨hown, hpart⟩ := (h.joined _ plan w hjoint).2 .device _ alone w' halone
  exact ⟨h, Config.keepsLibrary_of_name hname hl {} _, plan, alone, hpart, hown⟩

end Build

namespace Sample

/-- The device looks for its library among the temporaries, and the library is called like one that
is made for the host. -/
def shadowed : Config where
  device :=
    { inputs := [.ofString "k.cl"], output := some (.ofString "k.bc")
      libraryDirs := [.ofString "/t"] }
  host := { inputs := [.ofString "main.cc"], output := some (.ofString "main") }
  toolchain := { deviceTarget := "ac00000001-main" }
  stages := { analyze := false, transform := false }
  tempDir := some (.ofString "/t")

/-- Nothing but a directory for temporaries. -/
def temporaryDir : FileSystem := { entries := [([Utf8.encode "t"], .directory)] }

/-- How the link commands of the device end: their last words, and all words after their files. -/
def linkEnds (plan : BuildPlan) : List (Option Bytes × List Bytes) :=
  (plan.actionsOf .device .link).map fun a => (a.command.args.getLast?, a.template.trailing)

theorem map_fst_linkEnds (plan : BuildPlan) : (linkEnds plan).map Prod.fst =
    (plan.actionsOf .device .link).map (·.command.args.getLast?) := by
  rw [linkEnds, List.map_map]
  rfl

/-- Where the words after the files differ, so do the templates. -/
theorem template_ne_of_linkEnds {plan plan' : BuildPlan}
    (h : (linkEnds plan').map Prod.snd ≠ (linkEnds plan).map Prod.snd) :
    (plan'.actionsOf .device .link).map (·.template) ≠
      (plan.actionsOf .device .link).map (·.template) := by
  intro htemplate
  have htrailing := congrArg (List.map Template.trailing) htemplate
  rw [List.map_map, List.map_map] at htrailing
  rw [linkEnds, linkEnds, List.map_map, List.map_map] at h
  exact h htrailing

/-- Together with the host the device links the temporary of the host, and alone it does not. So its
link actions differ in more than their files, however these are matched. -/
theorem exists_shadowed_library : ∃ stages plan w alone w',
    StagePlan.resolve shadowed = .ok stages ∧
    (∀ p, (shadowed.pipeline p).isActive = true) ∧
    Build.assemble .none stages shadowed temporaryDir (.ofSeed 0) = (.ok plan, w) ∧
    Build.assemble .none stages (shadowed.only .device) temporaryDir (.ofSeed 0) =
      (.ok alone, w') ∧
    (plan.actionsOf .device .link).map (·.command.args.getLast?) =
      [some (Utf8.encode "/t/ac00000001-main.bc")] ∧
    (alone.actionsOf .device .link).map (·.command.args.getLast?) =
      [some (Utf8.encode "ac00000001-main.bc")] ∧
    ∀ same, ¬ List.Forall₂ (Action.Alike same) (plan.actionsOf .device .link)
      (alone.actionsOf .device .link) := by
  let stages := StagePlan.ofOptions shadowed.stages
  have hjoint : (Build.assemble .none stages shadowed temporaryDir (.ofSeed 0)).1.toOption.map
      linkEnds = some [(some (Utf8.encode "/t/ac00000001-main.bc"),
        [Utf8.encode "/t/ac00000001-main.bc"])] := by
    decide +kernel
  have halone : (Build.assemble .none stages (shadowed.only .device) temporaryDir
      (.ofSeed 0)).1.toOption.map linkEnds =
        some [(some (Utf8.encode "ac00000001-main.bc"), [Utf8.encode "ac00000001-main.bc"])] := by
    decide +kernel
  obtain ⟨plan, w, hplan, hends⟩ := exists_eq_ok_of_map hjoint
  obtain ⟨alone, w', hplan', hends'⟩ := exists_eq_ok_of_map halone
  refine ⟨stages, plan, w, alone, w', rfl, fun p => by cases p <;> rfl, hplan, hplan', ?_, ?_, ?_⟩
  · rw [← map_fst_linkEnds, hends]
    rfl
  · rw [← map_fst_linkEnds, hends']
    rfl
  · intro same halike
    exact template_ne_of_linkEnds (by rw [hends, hends']; decide +kernel)
      (map_template_of_alike halike)

end Sample

end CompilerDriver
