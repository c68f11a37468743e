import CompilerDriver.Proofs.AssemblySettings
import CompilerDriver.Proofs.ComparedRuns
import CompilerDriver.Proofs.RenamedFiles
import Mathlib.Data.List.Infix

/-!
# Stopping before link

A build that stops before link is the beginning of the full one. The stage that
comes last there writes the configured output, where the full build draws one
more temporary. But for this the two write and read the same files, in the order
of the stages, and no stage before can tell which of them it belongs to.
-/
namespace CompilerDriver

/-- The stages before link, in order. -/
def Stage.beforeLink : List Stage := [.compile, .analyze, .transform]

/-- The configuration that leaves link out, and what comes after. -/
def Config.truncated (c : Config) : Config :=
  c.setStages { c.stages with compileAnalyzeTransformOnly := true }

/-- A full build, and one input for each pipeline at most. -/
structure Config.LinksSingles (c : Config) : Prop where
  onlyCompile : c.stages.onlyCompile = false
  compileAnalyzeTransformOnly : c.stages.compileAnalyzeTransformOnly = false
  emitIntermediate : c.stages.emitIntermediate = false
  single : ∀ p, (c.pipeline p).inputs.length ≤ 1

def StagePlan.truncated (stages : StagePlan) : StagePlan :=
  ⟨{ stages.active with link := false, assemble := false, disassemble := false }⟩

namespace BuildPlan

/-- What a pipeline writes before link, in order. -/
def unlinkedOf (plan : BuildPlan) (p : Pipeline) : List Path :=
  Stage.beforeLink.flatMap fun s => (plan.actionsOf p s).map (·.binding.output)

def unlinked (plan : BuildPlan) : List Path := plan.unlinkedOf .device ++ plan.unlinkedOf .host

end BuildPlan

/-- The second plan is the first one up to link, and ends there. -/
structure TruncatedPlan (fs : FileSystem) (dir : Path) (c : Config) (plan plan' : BuildPlan)
    (temporaries temporaries' : List Path) : Prop where
  created : (plan.temporariesOf .device ++ plan.temporariesOf .host).Perm temporaries
  created' : (plan'.temporariesOf .device ++ plan'.temporariesOf .host).Perm temporaries'
  /-- The full plan writes its first temporaries before link. -/
  drawn : ∀ p, plan.unlinkedOf p <+: plan.temporariesOf p
  nodup : plan.unlinked.Nodup
  /-- The other plan writes its temporaries, and then the configured output. -/
  written : ∀ p, plan'.unlinkedOf p = plan'.temporariesOf p ++ (c.pipeline p).output.toList
  /-- To each file the one corresponds that is written in its place. -/
  matched : ∀ p, (plan.unlinkedOf p).map (counterpart plan.unlinked plan'.unlinked) =
    plan'.unlinkedOf p
  /-- The last temporary before link stands for the configured output. -/
  last : ∀ p output, (c.pipeline p).output = some output → ∃ q,
    (plan.unlinkedOf p).getLast? = some q ∧ counterpart plan.unlinked plan'.unlinked q = output
  /-- The other temporaries differ in their tokens only. -/
  twins : ∀ p, List.Forall₂ (Twins fs dir)
    ((plan.unlinkedOf p).take (plan'.temporariesOf p).length) (plan'.temporariesOf p)
  actions : ∀ s ∈ Stage.beforeLink, plan'.actions.stage s =
    (plan.actions.stage s).map (·.renameAt (counterpart plan.unlinked plan'.unlinked) s)
  /-- Where no source is called like a temporary, all files are renamed alike. -/
  renamed : (∀ source ∈ c.sources, source.2 ∉ plan.unlinked) →
    ∀ s ∈ Stage.beforeLink, plan'.actions.stage s =
      (plan.actions.stage s).map (·.rename (counterpart plan.unlinked plan'.unlinked))
  rest : ∀ s ∉ Stage.beforeLink, plan'.actions.stage s = []

namespace StagePlan

variable {c : Config} {stages : StagePlan}

theorem ofOptions_truncated {o : StageOptions} (hcompile : o.onlyCompile = false)
    (hemit : o.emitIntermediate = false) :
    ofOptions { o with compileAnalyzeTransformOnly := true } = (ofOptions o).truncated := by
  rcases o with ⟨_, only, analyze, transform, _, backend⟩
  obtain rfl := hcompile
  obtain rfl := hemit
  cases only <;> cases backend <;> rfl

theorem isActive_truncated (stages : StagePlan) (s : Stage) :
    stages.truncated.isActive s = (decide (s ∈ Stage.beforeLink) && stages.isActive s) := by
  cases s <;> rfl

theorem activeStages_truncated (stages : StagePlan) :
    stages.truncated.activeStages = Stage.beforeLink.filter stages.isActive := by
  have hall : Stage.all = Stage.beforeLink ++ [.link, .assemble, .disassemble] := rfl
  rw [activeStages, hall, List.filter_append]
  exact List.append_nil _

/-- A plan with link is what is left without it, and then link. -/
theorem exists_activeStages_link (h : stages.isActive .link = true) :
    ∃ rest, stages.activeStages = Stage.beforeLink.filter stages.isActive ++ .link :: rest := by
  have hall : Stage.all = Stage.beforeLink ++ .link :: [.assemble, .disassemble] := rfl
  rw [activeStages, hall, List.filter_append, List.filter_cons_of_pos h]
  exact ⟨_, rfl⟩

theorem isActive_link_of_resolve (hr : resolve c = .ok stages) (hc : c.LinksSingles) :
    stages.isActive .link = true := by
  obtain ⟨rfl, -⟩ := eq_ofOptions_of_resolve hr
  exact (isActive_link_iff c.stages).mpr ⟨hc.onlyCompile, hc.compileAnalyzeTransformOnly⟩

/-- What is accepted with link is accepted without it. -/
theorem resolve_truncated (hr : resolve c = .ok stages) (hc : c.LinksSingles) :
    resolve c.truncated = .ok stages.truncated := by
  obtain ⟨rfl, hv⟩ := eq_ofOptions_of_resolve hr
  have hplan : ofOptions c.truncated.stages = (ofOptions c.stages).truncated :=
    ofOptions_truncated hc.onlyCompile hc.emitIntermediate
  have hdevice : ¬ 1 < c.device.inputs.length := Nat.not_lt.mpr (hc.single .device)
  have hhost : ¬ 1 < c.host.inputs.length := Nat.not_lt.mpr (hc.single .host)
  have hv' : (ofOptions c.stages).truncated.validate c.truncated = .ok () := by
    simp only [validate, refuse_bind_eq_ok_iff, refuse_eq_ok_iff] at hv ⊢
    obtain ⟨hactive, hdout, hdnone, hhnone, hdatabase, hhout, -, -, -⟩ := hv
    refine ⟨hactive, hdout, hdnone, hhnone, hdatabase, hhout, ?_, ?_, rfl⟩
    · exact (congrArg (_ && ·) (decide_eq_false hdevice)).trans (Bool.and_false _)
    · exact (congrArg (_ && ·) (decide_eq_false hhost)).trans (Bool.and_false _)
  unfold resolve
  dsimp only
  rw [hplan, hv']
  rfl

/-- A pipeline with one input at most has as many outputs. -/
theorem Accepted.length_output {p : Pipeline} (h : Accepted c stages)
    (hp : (c.pipeline p).inputs.length ≤ 1) :
    (c.pipeline p).output.toList.length = (c.pipeline p).inputs.length := by
  have hactive := h.output p
  rw [PipelineConfig.isActive] at hactive
  cases hi : (c.pipeline p).inputs with
  | nil =>
    rw [hi] at hactive
    rw [Option.not_isSome_iff_eq_none.mp (ne_true_of_eq_false hactive)]
    rfl
  | cons q rest =>
    rw [hi] at hactive hp
    obtain ⟨output, ho⟩ := Option.isSome_iff_exists.mp hactive
    have hrest : rest.length = 0 := Nat.le_zero.mp (Nat.le_of_succ_le_succ hp)
    rw [ho, List.length_cons, hrest]
    rfl

end StagePlan

/-- Where a stage is not the last one, what is drawn there does not depend on those after it. -/
theorem AssemblyContext.requestsAt_congr_stages {ctx ctx' : AssemblyContext} {s : Stage}
    (h : ctx.settings.SameJobs ctx'.settings) (hl : ctx.stages.isLast s = false)
    (hl' : ctx'.stages.isLast s = false) (p : Pipeline) :
    ctx'.requestsAt s p = ctx.requestsAt s p := by
  have hpipeline : ctx'.config.pipeline p = ctx.config.pipeline p := h.pipeline p
  have hformat : ctx'.tempFormat s = ctx.tempFormat s := tempFormat_congr h ctx.stages ctx'.stages
  rw [requestsAt, requestsAt, finalFor, finalFor, unitNames, unitNames, hl, hl', hpipeline, hformat]

namespace Assembled

variable {ctx : AssemblyContext} {plan : BuildPlan} {paths : List Path}
  {before rounds : List Round} {final : Round}

theorem unlinkedOf_eq (h : Assembled ctx plan paths before final)
    (hsub : rounds ⊆ before ++ [final])
    (hrounds : rounds.map (·.stage) = Stage.beforeLink.filter ctx.stages.isActive) (p : Pipeline) :
    plan.unlinkedOf p = rounds.flatMap (·.outputs p) := by
  have hnil : ∀ s, ctx.stages.isActive s = false →
      (plan.actionsOf p s).map (·.binding.output) = [] := fun s hs => by
    rw [h.actionsOf_eq_nil hs, List.map_nil]
  rw [BuildPlan.unlinkedOf, ← StagePlan.flatMap_filter_isActive hnil, ← hrounds, List.flatMap_map]
  refine List.flatMap_congr fun r hr => ?_
  rw [h.actionsOf_of_mem (hsub hr)]
  rfl

/-- A plan with link has rounds before it, and the last of them is not the last of all. -/
theorem exists_split_link (h : Assembled ctx plan paths before final)
    (hlink : ctx.stages.isActive .link = true) : ∃ init last more, before = init ++ [last] ++ more ∧
      (init ++ [last]).map (·.stage) = Stage.beforeLink.filter ctx.stages.isActive := by
  obtain ⟨rest, hactive⟩ := StagePlan.exists_activeStages_link hlink
  have hne : Stage.beforeLink.filter ctx.stages.isActive ≠ [] := by
    have hm : Stage.compile ∈ Stage.beforeLink.filter ctx.stages.isActive :=
      List.mem_filter.mpr ⟨List.mem_cons_self, h.accepted.isActive_compile⟩
    exact List.ne_nil_of_mem hm
  obtain ⟨first, s, hfirst⟩ := (List.eq_nil_or_concat' _).resolve_left hne
  obtain ⟨later, s', hlater⟩ := (List.eq_nil_or_concat' (Stage.link :: rest)).resolve_left
    (List.cons_ne_nil _ _)
  have hbefore : before.map (·.stage) = first ++ s :: later := by
    rw [h.activeStages_eq, hfirst, hlater, List.append_assoc, ← List.append_assoc [s],
      ← List.append_assoc first] at hactive
    exact (List.append_inj' hactive rfl).1
  obtain ⟨init, tail, rfl, hinit, htail⟩ := List.map_eq_append_iff.mp hbefore
  obtain ⟨last, more, rfl, hlast, -⟩ := List.map_eq_cons_iff.mp htail
  refine ⟨init, last, more, List.append_cons _ _ _, ?_⟩
  rw [List.map_append, hinit, List.map_singleton, hlast, hfirst]

end Assembled

/-- Two runs that have the same to do, up to where the second one stops. The rounds of the first
one are `init` and `last` before link, and then more. -/
structure StopsBeforeLink (fs : FileSystem) (dir : Path) (ctx ctx' : AssemblyContext)
    (plan plan' : BuildPlan) (paths paths' : List Path) (init more before' : List Round)
    (last final final' : Round) : Prop where
  full : AssembledIn fs dir ctx plan paths (init ++ [last] ++ more) final
  short : AssembledIn fs dir ctx' plan' paths' before' final'
  jobs : ctx.settings.SameJobs ctx'.settings
  stages : ctx'.stages = ctx.stages.truncated
  rounds : (init ++ [last]).map (·.stage) = Stage.beforeLink.filter ctx.stages.isActive
  single : ∀ p, (ctx.config.pipeline p).inputs.length ≤ 1

namespace StopsBeforeLink

theorem subset_full {init more : List Round} {last final : Round} :
    init ++ [last] ⊆ init ++ [last] ++ more ++ [final] := by
  rw [List.append_assoc _ more]
  exact List.subset_append_left _ _

variable {fs : FileSystem} {dir : Path} {ctx ctx' : AssemblyContext} {plan plan' : BuildPlan}
  {paths paths' : List Path} {init more before' : List Round} {last final final' : Round}
  (h : StopsBeforeLink fs dir ctx ctx' plan plan' paths paths' init more before' last final final')

include h

theorem rounds_short :
    (before' ++ [final']).map (·.stage) = Stage.beforeLink.filter ctx'.stages.isActive := by
  rw [h.short.stages, h.stages, StagePlan.activeStages_truncated]
  rfl

theorem map_stage : (init ++ [last]).map (·.stage) = (before' ++ [final']).map (·.stage) := by
  rw [h.rounds, h.rounds_short, h.stages]
  rfl

theorem stage_init : init.map (·.stage) = before'.map (·.stage) ∧ last.stage = final'.stage := by
  have hmap := h.map_stage
  rw [List.map_append, List.map_append] at hmap
  obtain ⟨hinit, hlast⟩ := List.append_inj' hmap rfl
  exact ⟨hinit, List.singleton_inj.mp hlast⟩

theorem stage_ne_link {r : Round} (hr : r ∈ init ++ [last]) : r.stage ≠ .link := by
  have hm : r.stage ∈ Stage.beforeLink.filter ctx.stages.isActive :=
    h.rounds ▸ List.mem_map_of_mem hr
  intro he
  rw [he, List.mem_filter] at hm
  exact absurd hm.1 (by decide)

theorem unlinkedOf_full (p : Pipeline) :
    plan.unlinkedOf p = (init ++ [last]).flatMap (·.outputs p) := by
  exact h.full.unlinkedOf_eq subset_full h.rounds p

theorem unlinkedOf_short (p : Pipeline) :
    plan'.unlinkedOf p = (before' ++ [final']).flatMap (·.outputs p) := by
  exact h.short.unlinkedOf_eq (fun _ hr => hr) h.rounds_short p

/-- Before the last stage of the shorter run the pipelines draw twins. -/
theorem forall₂_init (p : Pipeline) : List.Forall₂ (fun r r' => r.stage = r'.stage ∧
    List.Forall₂ (TwinArtifacts fs dir) (r.outputs p) (r'.outputs p)) init before' := by
  refine forall₂_of_mem (forall₂_of_map_eq h.stage_init.1) ?_
  intro r hr r' hr' hstage
  have hr : r ∈ init ++ [last] ++ more := List.mem_append_left _ (List.mem_append_left _ hr)
  refine ⟨hstage, h.full.forall₂_round_twin h.short hr hr' ?_⟩
  rw [← hstage]
  exact AssemblyContext.requestsAt_congr_stages h.jobs (h.full.isLast_before hr)
    (hstage ▸ h.short.isLast_before hr') p

/-- At the last stage of the shorter run there is one file to write in a pipeline with inputs. -/
theorem length_last (p : Pipeline) : (last.outputs p).length = (final'.outputs p).length := by
  have hinit : last ∈ init ++ [last] := List.mem_append_right _ List.mem_cons_self
  have hlast : last ∈ init ++ [last] ++ more := List.mem_append_left _ hinit
  have hpipeline : ctx'.config.pipeline p = ctx.config.pipeline p := h.jobs.pipeline p
  have hne : last.stage ≠ .link := h.stage_ne_link hinit
  rw [← h.full.length_outputs hlast, AssemblyContext.length_requestsAt (h.full.isLast_before hlast),
    AssemblyContext.unitNames, if_neg hne, List.length_map, h.short.outputs_final, hpipeline]
  exact (h.full.accepted.length_output (h.single p)).symm

theorem forall₂_length (p : Pipeline) :
    List.Forall₂ (fun r r' => (r.outputs p).length = (r'.outputs p).length) (init ++ [last])
      (before' ++ [final']) := by
  refine List.rel_append ((h.forall₂_init p).imp fun _ _ hround => hround.2.length_eq) ?_
  exact .cons (h.length_last p) .nil

theorem zip_unlinkedOf (p : Pipeline) : (plan.unlinkedOf p).zip (plan'.unlinkedOf p) =
    ((init ++ [last]).zip (before' ++ [final'])).flatMap fun e =>
      (e.1.outputs p).zip (e.2.outputs p) := by
  rw [h.unlinkedOf_full, h.unlinkedOf_short]
  exact zip_flatMap (h.forall₂_length p)

theorem length_unlinkedOf (p : Pipeline) :
    (plan.unlinkedOf p).length = (plan'.unlinkedOf p).length := by
  have hsum : (init ++ [last]).map (fun r => (r.outputs p).length) =
      (before' ++ [final']).map fun r => (r.outputs p).length := by
    rw [← List.forall₂_eq_eq_eq, List.forall₂_map_left_iff, List.forall₂_map_right_iff]
    exact h.forall₂_length p
  rw [h.unlinkedOf_full, h.unlinkedOf_short, List.length_flatMap, List.length_flatMap, hsum]

/-- Before link a pipeline draws no temporary but those that it draws first. -/
theorem isPrefix_unlinkedOf (p : Pipeline) : plan.unlinkedOf p <+: plan.temporariesOf p := by
  rw [h.unlinkedOf_full, h.full.temporariesOf_eq]
  exact List.IsPrefix.flatMap (List.prefix_append _ more) _

theorem nodup_unlinked : plan.unlinked.Nodup := by
  have hall := h.full.perm_temporariesOf.nodup_iff.mpr h.full.nodup
  exact hall.sublist ((h.isPrefix_unlinkedOf .device).sublist.append
    (h.isPrefix_unlinkedOf .host).sublist)

theorem unlinkedOf_eq_append (p : Pipeline) :
    plan'.unlinkedOf p = plan'.temporariesOf p ++ (ctx.config.pipeline p).output.toList := by
  have hpipeline : ctx'.config.pipeline p = ctx.config.pipeline p := h.jobs.pipeline p
  rw [h.unlinkedOf_short, List.flatMap_append, List.flatMap_singleton, h.short.outputs_final,
    h.short.temporariesOf_eq, hpipeline]

theorem forall₂_temporariesOf (p : Pipeline) : List.Forall₂ (Twins fs dir)
    ((plan.unlinkedOf p).take (plan'.temporariesOf p).length) (plan'.temporariesOf p) := by
  have htwins : List.Forall₂ (Twins fs dir) (init.flatMap (·.outputs p))
      (plan'.temporariesOf p) := by
    rw [h.short.temporariesOf_eq]
    exact List.rel_flatMap (h.forall₂_init p) fun _ _ hround => hround.2.imp fun _ _ hq => hq.1
  rw [h.unlinkedOf_full, List.flatMap_append, ← htwins.length_eq, List.take_left]
  exact htwins

/-- What is matched in a pipeline is matched in the plan. -/
theorem zip_unlinkedOf_subset (p : Pipeline) :
    (plan.unlinkedOf p).zip (plan'.unlinkedOf p) ⊆ plan.unlinked.zip plan'.unlinked := by
  rw [BuildPlan.unlinked, BuildPlan.unlinked, List.zip_append (h.length_unlinkedOf .device)]
  cases p with
  | device => exact List.subset_append_left _ _
  | host => exact List.subset_append_right _ _

/-- Round by round, the second run writes the counterparts. -/
theorem map_outputs (p : Pipeline) :
    List.Forall₂ (fun r r' => r.stage = r'.stage ∧
      r'.outputs p = (r.outputs p).map (counterpart plan.unlinked plan'.unlinked)) (init ++ [last])
      (before' ++ [final']) := by
  have hmatched := List.Forall₂.mp (fun _ _ => And.intro) (forall₂_of_map_eq h.map_stage)
    (h.forall₂_length p)
  have hlength : plan.unlinked.length ≤ plan'.unlinked.length := by
    rw [BuildPlan.unlinked, BuildPlan.unlinked, List.length_append, List.length_append,
      h.length_unlinkedOf, h.length_unlinkedOf]
  refine List.forall₂_iff_zip.mpr ⟨hmatched.length_eq, fun {r r'} hmem => ?_⟩
  obtain ⟨hstage, hround⟩ := List.forall₂_zip hmatched hmem
  refine ⟨hstage, ?_⟩
  rw [← List.forall₂_eq_eq_eq, List.forall₂_map_right_iff]
  refine List.Forall₂.flip (List.forall₂_iff_zip.mpr ⟨hround, fun {q q'} hq => ?_⟩)
  refine (counterpart_of_mem_zip h.nodup_unlinked hlength (h.zip_unlinkedOf_subset p ?_)).symm
  rw [h.zip_unlinkedOf]
  exact List.mem_flatMap.mpr ⟨(r, r'), hmem, hq⟩

theorem map_unlinkedOf (p : Pipeline) :
    (plan.unlinkedOf p).map (counterpart plan.unlinked plan'.unlinked) = plan'.unlinkedOf p := by
  rw [h.unlinkedOf_full, h.unlinkedOf_short, List.map_flatMap, ← List.forall₂_eq_eq_eq]
  refine List.rel_flatMap (h.map_outputs p) fun r r' hround => ?_
  rw [← hround.2, List.forall₂_eq_eq_eq]

theorem exists_last {p : Pipeline} {output : Path}
    (ho : (ctx.config.pipeline p).output = some output) : ∃ q,
    (plan.unlinkedOf p).getLast? = some q ∧
      counterpart plan.unlinked plan'.unlinked q = output := by
  have hlast : (plan'.unlinkedOf p).getLast? = some output := by
    rw [h.unlinkedOf_eq_append, ho]
    exact List.getLast?_concat
  rw [← h.map_unlinkedOf, List.getLast?_map] at hlast
  exact Option.map_eq_some_iff.mp hlast

/-- No action before link looks at the device library. -/
theorem template_eq {p : Pipeline} {r r' : Round} (hr : r ∈ init ++ [last])
    (hr' : r' ∈ before' ++ [final']) {a a' : Action} (ha : a ∈ r.row p) (ha' : a' ∈ r'.row p)
    (hk : a'.kind = a.kind) : a'.template = a.template := by
  have hlink : a.kind ≠ .deviceLink := fun he => by
    have hactive := h.short.isActive_link hr' ha' (by rw [hk, he]; rfl)
    rw [h.stages] at hactive
    cases hactive
  have ht := h.full.template a (h.full.mem_toList (subset_full hr) ha) fun he => absurd he hlink
  have ht' := h.short.template a' (h.short.mem_toList hr' ha') fun he =>
    absurd (hk.symm.trans he) hlink
  rw [hk, h.jobs.template, ht] at ht'
  exact (Except.ok.inj ht').symm

theorem strand_full (p : Pipeline) :
    Strand ctx.settings p (ctx.sourcePaths p) (init ++ [last]) := by
  have hall := h.full.strand p
  rw [List.append_assoc] at hall
  exact hall.of_append

theorem sourcePaths_eq (p : Pipeline) : ctx'.sourcePaths p = ctx.sourcePaths p := by
  have hpipeline : ctx'.config.pipeline p = ctx.config.pipeline p := h.jobs.pipeline p
  rw [AssemblyContext.sourcePaths, AssemblyContext.sourcePaths, hpipeline]

/-- Files in the same form are all it takes to make the same actions of the same kinds. -/
theorem forall₂_rows (p : Pipeline) : List.Forall₂ (fun r r' => r.stage = r'.stage ∧
    List.Forall₂ (Action.Alike fun _ _ => True) (r.row p) (r'.row p)) (init ++ [last])
    (before' ++ [final']) := by
  have hsources : List.Forall₂ (fun q q' => Format.ofPath? q' = Format.ofPath? q)
      (ctx.sourcePaths p) (ctx'.sourcePaths p) := by
    rw [h.sourcePaths_eq, List.forall₂_same]
    exact fun _ _ => rfl
  have hinit := (h.forall₂_init p).imp fun r r' hround =>
    And.intro hround.1 (hround.2.imp fun q q' hq => hq.2)
  have hlast : List.Forall₂ (fun _ _ => True) (last.outputs p) (final'.outputs p) :=
    List.forall₂_iff_zip.mpr ⟨h.length_last p, fun _ => trivial⟩
  have hmatched := (h.strand_full p).matched (h.short.strand p) hsources hinit
    ⟨h.stage_init.2, hlast⟩ (fun _ _ hq => hq) fun _ _ _ => trivial
  exact forall₂_rows_alike hmatched fun r hr r' hr' a ha a' ha' => h.template_eq hr hr' ha ha'

/-- Round by round, the second run takes the actions of the first one on renamed files. -/
theorem forall₂_rows_eq (p : Pipeline) : List.Forall₂ (fun r r' => r.stage = r'.stage ∧
    r'.row p = (r.row p).map (·.renameAt (counterpart plan.unlinked plan'.unlinked) r.stage))
    (init ++ [last]) (before' ++ [final']) := by
  have hstages := h.rounds
  rw [Stage.beforeLink, List.filter_cons_of_pos h.full.accepted.isActive_compile] at hstages
  have hlater : Stage.compile ∉ [Stage.analyze, .transform].filter ctx.stages.isActive :=
    fun hm => absurd (List.mem_filter.mp hm).1 (by decide)
  have hinputs := (h.strand_full p).map_inputs_of_compile (h.sourcePaths_eq p ▸ h.short.strand p)
    (h.map_outputs p) hstages hlater
  have hfiles := List.Forall₂.mp (fun _ _ => And.intro) (h.map_outputs p) hinputs
  refine List.Forall₂.mp (fun r r' hrow hfile => ⟨hrow.1, ?_⟩) (h.forall₂_rows p) hfiles
  exact map_renameAt_of_alike hrow.2 hfile.1.2 hfile.2

theorem actionsOf_eq (p : Pipeline) {s : Stage} (hs : s ∈ Stage.beforeLink) :
    plan'.actionsOf p s =
      (plan.actionsOf p s).map (·.renameAt (counterpart plan.unlinked plan'.unlinked) s) := by
  cases hactive : ctx.stages.isActive s with
  | false =>
    have hactive' : ctx'.stages.isActive s = false := by
      rw [h.stages, StagePlan.isActive_truncated, hactive, Bool.and_false]
    rw [h.full.actionsOf_eq_nil hactive, h.short.actionsOf_eq_nil hactive']
    rfl
  | true =>
    have hm : s ∈ (init ++ [last]).map (·.stage) := by
      rw [h.rounds]
      exact List.mem_filter.mpr ⟨hs, hactive⟩
    obtain ⟨r, hr, rfl⟩ := List.mem_map.mp hm
    exact h.full.rel_actionsOf (R := fun s actions actions' => actions' =
        actions.map (·.renameAt (counterpart plan.unlinked plan'.unlinked) s))
      h.short.toAssembled subset_full (fun _ hr => hr) (h.forall₂_rows_eq p) hr

theorem stage_eq {s : Stage} (hs : s ∈ Stage.beforeLink) : plan'.actions.stage s =
    (plan.actions.stage s).map (·.renameAt (counterpart plan.unlinked plan'.unlinked) s) := by
  rw [h.full.stage_eq_append, h.short.stage_eq_append, List.map_append, h.actionsOf_eq _ hs,
    h.actionsOf_eq _ hs]

theorem truncatedPlan : TruncatedPlan fs dir ctx.config plan plan' paths paths' where
  created := h.full.perm_temporariesOf
  created' := h.short.perm_temporariesOf
  drawn := h.isPrefix_unlinkedOf
  nodup := h.nodup_unlinked
  written := h.unlinkedOf_eq_append
  matched := h.map_unlinkedOf
  last := fun _ _ ho => h.exists_last ho
  twins := h.forall₂_temporariesOf
  actions := fun _ hs => h.stage_eq hs
  renamed := by
    intro hapart s hs
    rw [h.stage_eq hs]
    refine List.map_congr_left fun a ha => ?_
    by_cases hc : s = .compile
    · subst hc
      refine a.renameAt_compile fun q hq => counterpart_of_not_mem ?_
      have hin := List.mem_map_of_mem (f := (·.binding.inputs)) ha
      rw [h.full.map_inputs_compile] at hin
      obtain ⟨source, hsource, heq⟩ := List.mem_map.mp hin
      rw [← heq, List.mem_singleton] at hq
      exact hq ▸ hapart source hsource
    · exact a.renameAt_of_ne hc
  rest := by
    intro s hs
    refine h.short.stage_eq_nil ?_
    rw [h.stages, StagePlan.isActive_truncated, decide_eq_false hs, Bool.false_and]

end StopsBeforeLink

/-- Sources whose names do not open as those of the temporaries are apart from them. -/
theorem TruncatedPlan.not_mem_unlinked {fs : FileSystem} {dir : Path} {c : Config}
    {plan plan' : BuildPlan} {temporaries temporaries' : List Path}
    (h : TruncatedPlan fs dir c plan plan' temporaries temporaries')
    (ht : ∀ q ∈ temporaries, ∃ rest, q.fileName = some (Utf8.encode "ac" ++ rest))
    (hc : ∀ source ∈ c.sources, ∀ name ∈ source.2.fileName, ¬ Utf8.encode "ac" <+: name) :
    ∀ source ∈ c.sources, source.2 ∉ plan.unlinked := by
  intro source hs hm
  have hdrawn : source.2 ∈ plan.temporariesOf .device ++ plan.temporariesOf .host :=
    ((h.drawn .device).sublist.append (h.drawn .host).sublist).subset hm
  obtain ⟨rest, hrest⟩ := ht _ (h.created.subset hdrawn)
  exact hc source hs _ hrest (List.prefix_append _ _)

namespace Build

variable {env : Environment} {c : Config} {stages : StagePlan} {fs : FileSystem}

/-- A build that is cut short before link, beside the full one. -/
structure Truncation (env : Environment) (c : Config) (stages : StagePlan) (fs : FileSystem) :
    Prop where
  accepted : StagePlan.resolve c.truncated = .ok stages.truncated
  /-- Where no allocation is refused, the one succeeds exactly when the other does. -/
  succeeds : ∀ names names', ¬ AllocationFails (assemble env stages c fs names) →
    ¬ AllocationFails (assemble env stages.truncated c.truncated fs names') →
    ((∃ plan, (assemble env stages.truncated c.truncated fs names').1 = .ok plan) ↔
      ∃ plan, (assemble env stages c fs names).1 = .ok plan)
  plans : ∀ names names' plan plan' w w', assemble env stages c fs names = (.ok plan, w) →
    assemble env stages.truncated c.truncated fs names' = (.ok plan', w') →
    TruncatedPlan fs (c.tempDir.getD env.tempDir) c plan plan' w.arena.paths w'.arena.paths

/-- For every accepted configuration that runs to link, with one input for each pipeline at
most. -/
theorem truncation_of_resolve (hr : StagePlan.resolve c = .ok stages) (hc : c.LinksSingles)
    (env : Environment) (fs : FileSystem) : Truncation env c stages fs where
  accepted := StagePlan.resolve_truncated hr hc
  succeeds := by
    intro names names' hn hn'
    rw [exists_assemble_eq_ok_iff hr hn,
      exists_assemble_eq_ok_iff (StagePlan.resolve_truncated hr hc) hn']
    rfl
  plans := by
    intro names names' plan plan' w w' h h'
    obtain ⟨before, final, hfull⟩ := assembledIn_of_assemble hr h
    obtain ⟨before', final', hshort⟩ :=
      assembledIn_of_assemble (StagePlan.resolve_truncated hr hc) h'
    obtain ⟨init, last, more, rfl, hrounds⟩ :=
      hfull.exists_split_link (StagePlan.isActive_link_of_resolve hr hc)
    have hcut : StopsBeforeLink fs (c.tempDir.getD env.tempDir) _ _ plan plan' w.arena.paths
        w'.arena.paths init more before' last final final' :=
      { full := hfull
        short := hshort
        jobs := c.sameJobs_setStages env fs rfl
        stages := rfl
        rounds := hrounds
        single := hc.single }
    exact hcut.truncatedPlan

end Build

namespace Sample

/-- One source for each pipeline, and the temporaries in the root directory. -/
def single : Config where
  device := { inputs := [.ofString "a.cl"], output := some (.ofString "out.bc") }
  host := { inputs := [.ofString "main.cc"], output := some (.ofString "out") }
  database := some (.ofString "db.json")
  tempDir := some (.ofString "/")

theorem linksSingles_single : single.LinksSingles where
  onlyCompile := rfl
  compileAnalyzeTransformOnly := rfl
  emitIntermediate := rfl
  single := fun p => by cases p <;> exact Nat.le_refl _

theorem exists_assemble_single :
    (∃ plan w, Build.assemble .none stages single {} (.ofSeed 0) = (.ok plan, w)) ∧
      ∃ plan w, Build.assemble .none stages.truncated single.truncated {} (.ofSeed 70) =
        (.ok plan, w) := by
  have hfull : (Build.assemble .none stages single {} (.ofSeed 0)).1.toBool = true := by
    decide +kernel
  have hshort : (Build.assemble .none stages.truncated single.truncated {} (.ofSeed 70)).1.toBool =
      true := by
    decide +kernel
  exact ⟨exists_eq_ok_of_toBool hfull, exists_eq_ok_of_toBool hshort⟩

end Sample

namespace Build

theorem truncation_of_sample :
    Truncation .none Sample.single Sample.stages {} ∧
      ∃ plan plan' paths paths', TruncatedPlan {} (.ofString "/") Sample.single plan plan' paths
        paths' ∧ ∀ s ∈ Stage.beforeLink, plan'.actions.stage s =
          (plan.actions.stage s).map (·.rename (counterpart plan.unlinked plan'.unlinked)) := by
  have hr : StagePlan.resolve Sample.single = .ok Sample.stages := rfl
  have h := truncation_of_resolve hr Sample.linksSingles_single .none {}
  obtain ⟨⟨plan, w, hfull⟩, plan', w', hshort⟩ := Sample.exists_assemble_single
  have hplan := h.plans _ _ plan plan' w w' hfull hshort
  have hname : ∀ source ∈ Sample.single.sources, ∀ name ∈ source.2.fileName,
      ¬ Utf8.encode "ac" <+: name := by
    decide +kernel
  exact ⟨h, plan, plan', _, _, hplan, hplan.renamed
    (hplan.not_mem_unlinked (fileName_of_assemble hr hfull) hname)⟩

end Build

end CompilerDriver
