import CompilerDriver.Proofs.AssemblyRounds

/-!
# Assembly of an accepted configuration

The standard assembler on a configuration that planning accepts. If the compile
stage accepts the form of every source, assembly comes to its rounds unless an
allocation is refused. Otherwise it stops at the first source that is not
accepted, and has drawn no more than the temporaries of the sources before.
-/
namespace CompilerDriver

namespace Pipeline

/-- The forms in which a pipeline takes its sources. -/
def sourceFormats : Pipeline → List Format
  | .device => [.openCl, .irText, .irBinary]
  | .host => [.cxxSource, .irText, .irBinary]

/-- The path has a form in which the pipeline takes its sources. -/
def AcceptsSource (p : Pipeline) (q : Path) : Prop :=
  ∃ f ∈ p.sourceFormats, Format.ofPath? q = some f

instance (p : Pipeline) (q : Path) : Decidable (p.AcceptsSource q) :=
  List.decidableBEx _ _

theorem isSome_dispatch_compile_iff {p : Pipeline} {q : Path} :
    (ActionKind.dispatch p .compile (Format.ofPath? q)).isSome = true ↔ p.AcceptsSource q := by
  unfold AcceptsSource
  generalize Format.ofPath? q = format
  rcases format with _ | _ | _ | _ | _ <;> cases p <;> decide

end Pipeline

/-- The inputs of both pipelines in the order in which they are compiled. -/
def Config.sources (c : Config) : List (Pipeline × Path) :=
  c.device.inputs.map (.device, ·) ++ c.host.inputs.map (.host, ·)

theorem Config.mem_sources_iff {c : Config} {p : Pipeline} {q : Path} :
    (p, q) ∈ c.sources ↔ q ∈ (c.pipeline p).inputs := by
  cases p <;> simp [sources, pipeline]

/-- The sources are all accepted, or there is a first one that is not. -/
theorem Config.accepts_or_exists_first (c : Config) :
    (∀ source ∈ c.sources, source.1.AcceptsSource source.2) ∨
      ∃ before p q after, c.sources = before ++ (p, q) :: after ∧
        (∀ source ∈ before, source.1.AcceptsSource source.2) ∧ ¬ p.AcceptsSource q := by
  cases hf : c.sources.find? fun source => !decide (source.1.AcceptsSource source.2) with
  | none =>
    refine Or.inl fun source hs => ?_
    simpa using List.find?_eq_none.mp hf source hs
  | some source =>
    obtain ⟨hn, before, after, hs, hk⟩ := List.find?_eq_some_iff_append.mp hf
    refine Or.inr ⟨before, source.1, source.2, after, hs, fun r hr => ?_, by simpa using hn⟩
    simpa using hk r hr

theorem Config.exists_inputs_eq_of_map_eq {p p' : Pipeline} {q : Path} {inputs : List Path}
    {before after : List (Pipeline × Path)} (h : inputs.map (p, ·) = before ++ (p', q) :: after) :
    p' = p ∧ ∃ first second, inputs = first ++ q :: second ∧ before = first.map (p, ·) := by
  obtain ⟨first, rest, rfl, rfl, hrest⟩ := List.map_eq_append_iff.mp h
  obtain ⟨q', second, rfl, hq, -⟩ := List.map_eq_cons_iff.mp hrest
  cases hq
  exact ⟨rfl, first, second, rfl, rfl⟩

/-- A source with the sources before it, by its pipeline. -/
theorem Config.split_sources {c : Config} {before after : List (Pipeline × Path)} {p : Pipeline}
    {q : Path} (h : c.sources = before ++ (p, q) :: after) :
    (p = .device ∧ ∃ first second, c.device.inputs = first ++ q :: second ∧
      before = first.map (.device, ·)) ∨
    (p = .host ∧ ∃ first second, c.host.inputs = first ++ q :: second ∧
      before = c.device.inputs.map (.device, ·) ++ first.map (.host, ·)) := by
  obtain ⟨more, rfl, hhost⟩ | ⟨more, hdevice, hmore⟩ := List.append_eq_append_iff.mp h
  · obtain ⟨rfl, first, second, hi, rfl⟩ := exists_inputs_eq_of_map_eq hhost
    exact Or.inr ⟨rfl, first, second, hi, rfl⟩
  · cases more with
    | nil =>
      rw [List.append_nil] at hdevice
      have hhost : c.host.inputs.map (Pipeline.host, ·) = [] ++ (p, q) :: after := hmore.symm
      obtain ⟨rfl, first, second, hi, hf⟩ := exists_inputs_eq_of_map_eq hhost
      refine Or.inr ⟨rfl, first, second, hi, ?_⟩
      rw [← hdevice, ← hf, List.append_nil]
    | cons source more =>
      obtain ⟨rfl, -⟩ := List.cons.inj hmore
      obtain ⟨rfl, hi⟩ := exists_inputs_eq_of_map_eq hdevice
      exact Or.inl ⟨rfl, hi⟩

namespace StagePlan.Accepted

variable {c : Config} {stages : StagePlan}

theorem exists_activeStages_eq (h : Accepted c stages) :
    ∃ rest, stages.activeStages = .compile :: rest := by
  have hm : .compile ∈ stages.activeStages := mem_activeStages_iff.mpr h.isActive_compile
  obtain ⟨done, rest, hs⟩ := List.append_of_mem hm
  obtain rfl := (h.done_eq_nil_iff hs).mpr rfl
  exact ⟨rest, hs⟩

end StagePlan.Accepted

theorem Assembler.steps_standard : standard.steps = Stage.all.map StageAssembler.ofStage := by
  decide

/-- The standard assembler goes over the active stages. -/
theorem Assembler.assemble_standard (settings : BuildSettings) (stages : StagePlan) :
    standard.assemble settings stages =
      stages.activeStages.foldlM
        (fun plan s => (StageAssembler.ofStage s).runPipelines ⟨settings, stages⟩ plan)
        (.initial stages settings.config) := by
  rw [assemble, steps_standard, List.filter_map, List.foldlM_map]
  rfl

namespace AssemblyContext

open AssemblyM CompilationUnit

variable {ctx : AssemblyContext} {p : Pipeline} {s : Stage} {w : Workspace}

/-- The temporaries that a build draws if all goes well, in order. -/
def requests (ctx : AssemblyContext) : List Request :=
  ctx.stages.activeStages.flatMap ctx.roundRequests

/-- What the pipelines start from. -/
def sourcePaths (ctx : AssemblyContext) (p : Pipeline) : List Path := (ctx.config.pipeline p).inputs

theorem pipeline_initial (stages : StagePlan) (c : Config) (p : Pipeline) :
    (BuildPlan.initial stages c).pipeline p = .ofInputs (c.pipeline p).inputs := by
  cases p <;> rfl

theorem ready_initial (ha : StagePlan.Accepted ctx.config ctx.stages) (p : Pipeline) :
    Ready ctx p [] (.initial ctx.stages ctx.config) (ctx.sourcePaths p) := by
  refine ⟨?_, ?_, fun h => absurd rfl h, ?_, ?_, ?_⟩
  · rw [pipeline_initial, PipelineUnits.ofInputs, List.map_map]
    rfl
  · rw [pipeline_initial, PipelineUnits.ofInputs, PipelineUnits.carriers, List.map_map]
    rfl
  · rw [pipeline_initial]
    rfl
  · exact (Bool.not_not _).symm
  · rintro (h | h)
    · cases h
    · exact ha.single h p

/-- Where every source is accepted, assembly draws its temporaries and comes to its rounds. -/
theorem assemble_draws (ha : StagePlan.Accepted ctx.config ctx.stages)
    (hk : ∀ source ∈ ctx.config.sources, source.1.AcceptsSource source.2) :
    Draws (Assembler.standard.assemble ctx.settings ctx.stages) ctx.requests w
      fun paths plan => ∃ rounds, rounds.map (·.stage) = ctx.stages.activeStages ∧
        Rounds ctx ctx.sourcePaths (.initial ctx.stages ctx.config) rounds paths plan ∧
        ∀ p, Ready ctx p ctx.stages.activeStages plan
          (Rounds.frontAfter ctx.sourcePaths rounds p) := by
  rw [Assembler.assemble_standard]
  refine rounds_draws ha (List.nil_append _).symm (ready_initial ha) ?_ ?_
  · intro s hs p q hq
    obtain ⟨rest, hrest⟩ := ha.exists_activeStages_eq
    rw [hrest] at hs
    obtain rfl := Option.some.inj hs
    exact Pipeline.isSome_dispatch_compile_iff.mpr (hk (p, q) (Config.mem_sources_iff.mpr hq))
  · intro s _
    exact PerStage.get_replicate [] s

theorem requested_finalFor {names : List String} {extension : String}
    (ha : StagePlan.Accepted ctx.config ctx.stages)
    (hp : (ctx.config.pipeline p).isActive = true) :
    requested (ctx.finalFor s p) extension names =
      if ctx.stages.isLast s then [] else names.map (⟨·, extension⟩) := by
  obtain ⟨output, ho⟩ := Option.isSome_iff_exists.mp ((ha.output p).trans hp)
  unfold finalFor
  split
  · rw [ho]
    rfl
  · rfl

/-- The temporary of a source, where the compile stage is not the last one. -/
def sourceRequest (ctx : AssemblyContext) (source : Pipeline × Path) : Request :=
  ⟨nameOf source.2, (ctx.tempFormat .compile).extension⟩

theorem requestsAt_compile (ha : StagePlan.Accepted ctx.config ctx.stages) (p : Pipeline) :
    ctx.requestsAt .compile p = if ctx.stages.isLast .compile then [] else
      (ctx.sourcePaths p).map fun q => ctx.sourceRequest (p, q) := by
  cases hp : (ctx.config.pipeline p).isActive with
  | false =>
    rw [requestsAt_eq_nil ha hp, sourcePaths, PipelineConfig.isActive_eq_false_iff.mp hp,
      List.map_nil, ite_self]
  | true =>
    have hne : ¬ Stage.compile = .link := by decide
    rw [requestsAt, requested_finalFor ha hp, unitNames, if_neg hne, List.map_map]
    rfl

theorem roundRequests_compile (ha : StagePlan.Accepted ctx.config ctx.stages) :
    ctx.roundRequests .compile = if ctx.stages.isLast .compile then [] else
      ctx.config.sources.map ctx.sourceRequest := by
  rw [roundRequests, requestsAt_compile ha, requestsAt_compile ha]
  split
  · rfl
  · rw [Config.sources, List.map_append, List.map_map, List.map_map]
    rfl

/-- The first temporaries that are asked for are those of the first sources. -/
theorem take_requests (ha : StagePlan.Accepted ctx.config ctx.stages)
    {before after : List (Pipeline × Path)} (hs : ctx.config.sources = before ++ after) :
    ctx.requests.take before.length = if ctx.stages.isLast .compile then [] else
      before.map ctx.sourceRequest := by
  obtain ⟨rest, hrest⟩ := ha.exists_activeStages_eq
  have hsplit : ctx.stages.activeStages = [] ++ .compile :: rest := hrest
  rw [requests, hrest, List.flatMap_cons, roundRequests_compile ha]
  split
  · next hl =>
    obtain rfl := (StagePlan.isLast_iff_of_split hsplit).mp hl
    exact List.take_nil
  · rw [hs, List.map_append, List.append_assoc]
    exact List.take_left' (List.length_map _)

theorem isActive_of_sourcePaths {first second : List Path} {q : Path}
    (hs : ctx.sourcePaths p = first ++ q :: second) :
    (ctx.config.pipeline p).isActive = true := by
  cases hp : (ctx.config.pipeline p).isActive with
  | true => rfl
  | false =>
    rw [sourcePaths, PipelineConfig.isActive_eq_false_iff.mp hp, eq_comm,
      List.append_eq_nil_iff] at hs
    cases hs.2

/-- The compile stage of a pipeline stops at its first source that is not accepted. -/
theorem compile_rejects (ha : StagePlan.Accepted ctx.config ctx.stages) {plan : BuildPlan}
    {first second : List Path} {q : Path}
    (hu : plan.pipeline p = .ofInputs (ctx.sourcePaths p))
    (hs : ctx.sourcePaths p = first ++ q :: second)
    (hk : ∀ path ∈ first, p.AcceptsSource path) (hn : ¬ p.AcceptsSource q) :
    Rejects ((StageAssembler.ofStage .compile).visit ctx p plan)
      (if ctx.stages.isLast .compile then [] else first.map fun path => ctx.sourceRequest (p, path))
      w (.unrecognizedInputFormat q p .compile) := by
  have hp := isActive_of_sourcePaths hs
  obtain ⟨output, ho⟩ := Option.isSome_iff_exists.mp ((ha.output p).trans hp)
  have hunits : (plan.pipeline p).units =
      first.map ofSource ++ ofSource q :: second.map ofSource := by
    rw [hu, hs, PipelineUnits.ofInputs, List.map_append, List.map_cons]
  have hactive : (plan.pipeline p).isActive = true := by
    rw [PipelineUnits.isActive, hunits]
    cases first <;> rfl
  have hnone : ActionKind.dispatch p .compile (ofSource q).nextFormat = none := by
    rw [← Option.isNone_iff_eq_none, ← Option.not_isSome, Bool.not_eq_true', ← Bool.not_eq_true]
    exact fun h => hn (Pipeline.isSome_dispatch_compile_iff.mp h)
  have hfirst : ∀ v ∈ first.map ofSource,
      (ActionKind.dispatch p .compile v.nextFormat).isSome = true := by
    intro v hv
    obtain ⟨path, hpath, rfl⟩ := List.mem_map.mp hv
    exact Pipeline.isSome_dispatch_compile_iff.mpr (hk path hpath)
  have hrejects : Rejects (ctx.perUnit .compile p plan) _ w _ :=
    perUnit_rejects (by decide) ho hunits hfirst (fun h => by cases h <;> contradiction) hnone
  rw [requested_finalFor ha hp, List.map_map, List.map_map] at hrejects
  rw [StageAssembler.visit, hactive, if_pos rfl]
  exact hrejects

/-- Assembly stops at the first source that is not accepted. -/
theorem assemble_rejects (ha : StagePlan.Accepted ctx.config ctx.stages)
    {before after : List (Pipeline × Path)} {q : Path}
    (hs : ctx.config.sources = before ++ (p, q) :: after)
    (hk : ∀ source ∈ before, source.1.AcceptsSource source.2) (hn : ¬ p.AcceptsSource q) :
    Rejects (Assembler.standard.assemble ctx.settings ctx.stages)
      (ctx.requests.take before.length) w (.unrecognizedInputFormat q p .compile) := by
  obtain ⟨rest, hrest⟩ := ha.exists_activeStages_eq
  rw [Assembler.assemble_standard, hrest, List.foldlM_cons, take_requests ha hs,
    StageAssembler.runPipelines_eq]
  refine Rejects.bind ?_
  -- Among the device sources the host is never visited; else the device has taken its turn.
  obtain ⟨rfl, first, second, hi, rfl⟩ | ⟨rfl, first, second, hi, rfl⟩ := Config.split_sources hs
  · rw [List.map_map]
    refine (compile_rejects (p := .device) ha (pipeline_initial _ _ _) hi ?_ hn).bind
    exact fun path hpath => hk _ (List.mem_map_of_mem hpath)
  · have hdevice : Readable .device .compile (ctx.sourcePaths .device) := fun path hpath =>
      Pipeline.isSome_dispatch_compile_iff.mpr
        (hk _ (List.mem_append_left _ (List.mem_map_of_mem hpath)))
    have hrequests : (if ctx.stages.isLast .compile then [] else
        (ctx.config.device.inputs.map (Pipeline.device, ·) ++ first.map (Pipeline.host, ·)).map
          ctx.sourceRequest) = ctx.requestsAt .compile .device ++
        if ctx.stages.isLast .compile then [] else
          first.map fun path => ctx.sourceRequest (.host, path) := by
      rw [requestsAt_compile ha]
      split
      · rfl
      · rw [List.map_append, List.map_map, List.map_map]
        rfl
    rw [hrequests]
    refine ((ready_initial ha .device).turn_draws ha hrest hdevice).bind_rejects ?_
    rintro paths mid w₁ ⟨acts, ht, -⟩
    refine compile_rejects (p := .host) ha ?_ hi ?_ hn
    · rw [ht.others .host (by decide)]
      exact pipeline_initial _ _ _
    · exact fun path hpath => hk _ (List.mem_append_right _ (List.mem_map_of_mem hpath))

end AssemblyContext

end CompilerDriver
