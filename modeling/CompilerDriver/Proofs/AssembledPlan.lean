import CompilerDriver.Proofs.StandardAssembly
import Mathlib.Data.List.Nodup

/-!
# Plans by their rounds

What the rounds of assembly say of the plan that comes out of them. The facts
about single rounds are gathered by induction over the rounds, and then put
together for a plan that the standard assembler has made from the start. Later
proofs about plans use the record `Assembled` and no step of assembly.
-/
namespace CompilerDriver

namespace Round

/-- What an action of a round reads, it reads of the front of its pipeline. -/
theorem Taken.flatMap_inputs {r : Round} {ctx : AssemblyContext} {fronts : Pipeline → List Path}
    {plan plan' : BuildPlan} {paths : List Path} (h : r.Taken ctx fronts plan paths plan') :
    r.actions.flatMap (·.binding.inputs) = fronts .device ++ fronts .host := by
  rw [Round.actions, List.flatMap_append, List.flatMap_def, List.flatMap_def,
    (h.row .device).inputs, (h.row .host).inputs, Stage.flatten_reads, Stage.flatten_reads]

end Round

namespace Rounds

variable {ctx : AssemblyContext} {fronts : Pipeline → List Path} {plan plan' : BuildPlan}
  {rounds : List Round} {paths : List Path} {r : Round} {p : Pipeline} {s : Stage}

theorem stages_eq (h : Rounds ctx fronts plan rounds paths plan') : plan'.stages = plan.stages := by
  induction h with
  | nil => rfl
  | cons ht _ ih => rw [ih, ht.stages]

theorem stage_of_not_mem (h : Rounds ctx fronts plan rounds paths plan')
    (hs : s ∉ rounds.map (·.stage)) : plan'.actions.stage s = plan.actions.stage s := by
  induction h with
  | nil => rfl
  | cons ht _ ih =>
    rw [List.map_cons, List.mem_cons, not_or] at hs
    rw [ih hs.2, ht.actions, StageActions.stage_setStage_of_ne _ _ hs.1]

/-- The list of a stage is that of its round. -/
theorem stage_of_mem (h : Rounds ctx fronts plan rounds paths plan')
    (hn : (rounds.map (·.stage)).Nodup) (hr : r ∈ rounds) :
    plan'.actions.stage r.stage = r.actions := by
  induction h with
  | nil => cases hr
  | @cons _ _ _ _ first rest _ _ ht hrest ih =>
    rw [List.map_cons, List.nodup_cons] at hn
    cases hr with
    | head => rw [hrest.stage_of_not_mem hn.1, ht.actions, StageActions.stage_setStage_self]
    | tail _ hr => exact ih hn.2 hr

theorem owns_iff (h : Rounds ctx fronts plan rounds paths plan') {id : ActionId} :
    plan'.Owns p id ↔ plan.Owns p id ∨ ∃ r ∈ rounds, r.Holds p id := by
  induction h with
  | nil => simp
  | cons ht _ ih =>
    rw [ih, ht.owns, or_assoc]
    simp only [List.mem_cons, exists_eq_or_imp]

theorem map_identity (h : Rounds ctx fronts plan rounds paths plan') (p : Pipeline) :
    (plan'.pipeline p).units.map (·.identity) = (plan.pipeline p).units.map (·.identity) := by
  induction h with
  | nil => rfl
  | cons ht _ ih => rw [ih, ht.identity]

/-- Once a pipeline is linked, its units stay as they are. -/
theorem units_eq (h : Rounds ctx fronts plan rounds paths plan')
    (hc : (plan.pipeline p).combined.isSome = true) :
    (plan'.pipeline p).units = (plan.pipeline p).units := by
  induction h with
  | nil => rfl
  | cons ht _ ih =>
    obtain ⟨hc', hu⟩ := ht.kept p hc
    rw [ih hc', hu]

/-- A link action reads the latest output of every unit. -/
theorem inputs_of_link (h : Rounds ctx fronts plan rounds paths plan') (hr : r ∈ rounds)
    (hs : r.stage = .link) {a : Action} (ha : a ∈ r.row p) :
    (plan'.pipeline p).units.mapM CompilationUnit.currentOutput = .ok a.binding.inputs := by
  induction h with
  | nil => cases hr
  | @cons fronts _ _ _ first rest _ _ ht hrest ih =>
    cases hr with
    | tail _ hr => exact ih hr
    | head =>
      have hreads := (ht.row p).inputs
      have hne : fronts p ≠ [] := fun he => by
        rw [he, Stage.reads_nil, List.map_eq_nil_iff] at hreads
        rw [hreads] at ha
        cases ha
      obtain ⟨hc, hm⟩ := ht.merged hs p hne
      rw [hs, Stage.reads_link hne] at hreads
      have hin := List.mem_map_of_mem (f := (·.binding.inputs)) ha
      rw [hreads, List.mem_singleton] at hin
      rw [hrest.units_eq hc, hm, hin]

theorem outputs_of_isLast (h : Rounds ctx fronts plan rounds paths plan') (hr : r ∈ rounds)
    (hl : ctx.stages.isLast r.stage = true) (p : Pipeline) :
    r.outputs p = (ctx.config.pipeline p).output.toList := by
  induction h with
  | nil => cases hr
  | cons ht _ ih =>
    cases hr with
    | head => exact ht.outputs p hl
    | tail _ hr => exact ih hr

theorem paths_eq (h : Rounds ctx fronts plan rounds paths plan') :
    paths = rounds.flatMap fun r =>
      if ctx.stages.isLast r.stage then [] else r.actions.map (·.binding.output) := by
  induction h with
  | nil => rfl
  | cons ht _ ih => rw [List.flatMap_cons, ← ht.paths, ← ih]

theorem row (h : Rounds ctx fronts plan rounds paths plan') {before after : List Round}
    (hr : rounds = before ++ r :: after) (p : Pipeline) :
    Row ctx.settings p r.stage (frontAfter fronts before p) (r.row p) := by
  induction h generalizing before with
  | nil => cases before <;> cases hr
  | cons ht _ ih =>
    cases before with
    | nil =>
      obtain ⟨rfl, -⟩ := List.cons.inj hr
      exact ht.row p
    | cons first before =>
      obtain ⟨rfl, hrest⟩ := List.cons.inj hr
      rw [frontAfter_cons]
      exact ih hrest

/-- Together the rounds read the first fronts and then what all but the last have written. -/
theorem flatMap_inputs (h : Rounds ctx fronts plan rounds paths plan') {before : List Round}
    (hr : rounds = before ++ [r]) :
    rounds.flatMap (fun r => r.actions.flatMap (·.binding.inputs)) =
      fronts .device ++ fronts .host ++
        before.flatMap fun r => r.actions.map (·.binding.output) := by
  induction h generalizing before with
  | nil => cases before <;> cases hr
  | cons ht hrest ih =>
    rw [List.flatMap_cons, ht.flatMap_inputs]
    cases before with
    | nil =>
      obtain ⟨rfl, rfl⟩ := List.cons.inj hr
      rfl
    | cons first before =>
      obtain ⟨rfl, hrest⟩ := List.cons.inj hr
      rw [ih hrest, List.flatMap_cons, Round.map_output_actions]

end Rounds

/-- Stages that are not active do not count, where there is nothing to gather at them. -/
theorem StagePlan.flatMap_filter_isActive {α : Type} {f : Stage → List α} {stages : StagePlan}
    (h : ∀ s, stages.isActive s = false → f s = []) (list : List Stage) :
    (list.filter stages.isActive).flatMap f = list.flatMap f := by
  induction list with
  | nil => rfl
  | cons s rest ih =>
    rw [List.flatMap_cons, List.filter_cons, ← ih]
    cases hs : stages.isActive s with
    | true => rw [if_pos rfl, List.flatMap_cons]
    | false => rw [h s hs, if_neg Bool.false_ne_true, List.nil_append]

/-- What is known of a plan that the standard assembler has made of an accepted configuration:
the rounds before the last stage, the last round, and the paths drawn. -/
structure Assembled (ctx : AssemblyContext) (plan : BuildPlan) (paths : List Path)
    (before : List Round) (final : Round) : Prop where
  accepted : StagePlan.Accepted ctx.config ctx.stages
  rounds : Rounds ctx ctx.sourcePaths (.initial ctx.stages ctx.config) (before ++ [final]) paths
    plan
  stages : (before ++ [final]).map (·.stage) = ctx.stages.activeStages

namespace Assembled

variable {ctx : AssemblyContext} {plan : BuildPlan} {paths : List Path} {before : List Round}
  {final r : Round} {p : Pipeline} {s : Stage}

theorem activeStages_eq (h : Assembled ctx plan paths before final) :
    ctx.stages.activeStages = before.map (·.stage) ++ [final.stage] := by
  rw [← h.stages, List.map_append, List.map_singleton]

theorem getLast?_activeStages (h : Assembled ctx plan paths before final) :
    ctx.stages.activeStages.getLast? = some final.stage := by
  rw [h.activeStages_eq, List.getLast?_concat]

theorem stage_final (h : Assembled ctx plan paths before final) :
    final.stage = ctx.stages.last := by
  rw [StagePlan.last, h.getLast?_activeStages, Option.getD_some]

theorem isLast_final (h : Assembled ctx plan paths before final) :
    ctx.stages.isLast final.stage = true :=
  (StagePlan.isLast_iff_of_split h.activeStages_eq).mpr rfl

theorem nodup_stages (h : Assembled ctx plan paths before final) :
    ((before ++ [final]).map (·.stage)).Nodup := by
  rw [h.stages]
  exact Stage.nodup_all.filter _

theorem index_lt (h : Assembled ctx plan paths before final) (hr : r ∈ before) :
    r.stage.index < final.stage.index :=
  (StagePlan.index_lt_of_split h.activeStages_eq).1 _ (List.mem_map_of_mem hr)

theorem isLast_before (h : Assembled ctx plan paths before final) (hr : r ∈ before) :
    ctx.stages.isLast r.stage = false := by
  cases hl : ctx.stages.isLast r.stage with
  | false => rfl
  | true =>
    rw [StagePlan.isLast, beq_iff_eq, ← h.stage_final] at hl
    exact absurd (h.index_lt hr) (by rw [hl]; exact Nat.lt_irrefl _)

theorem stage_of_mem (h : Assembled ctx plan paths before final) (hr : r ∈ before ++ [final]) :
    plan.actions.stage r.stage = r.actions :=
  h.rounds.stage_of_mem h.nodup_stages hr

theorem stage_last (h : Assembled ctx plan paths before final) :
    plan.actions.stage ctx.stages.last = final.actions := by
  rw [← h.stage_final, h.stage_of_mem (List.mem_append_right _ (List.mem_singleton_self _))]

theorem stage_eq_nil (h : Assembled ctx plan paths before final)
    (hs : ctx.stages.isActive s = false) : plan.actions.stage s = [] := by
  have hm : s ∉ (before ++ [final]).map (·.stage) := by
    rw [h.stages, StagePlan.mem_activeStages_iff, hs]
    exact Bool.false_ne_true
  rw [h.rounds.stage_of_not_mem hm]
  exact PerStage.get_replicate [] s

theorem flatMap_stage (h : Assembled ctx plan paths before final) {rounds : List Round}
    (hr : ∀ r ∈ rounds, r ∈ before ++ [final]) :
    (rounds.map (·.stage)).flatMap plan.actions.stage = rounds.flatMap (·.actions) := by
  rw [List.flatMap_map]
  exact List.flatMap_congr fun r hm => h.stage_of_mem (hr r hm)

/-- The actions in the order they run are those of the rounds. -/
theorem toList_eq_flatMap (h : Assembled ctx plan paths before final) :
    plan.actions.toList = (before ++ [final]).flatMap (·.actions) := by
  rw [StageActions.toList, ← StagePlan.flatMap_filter_isActive fun s hs => h.stage_eq_nil hs,
    ← StagePlan.activeStages, ← h.stages, h.flatMap_stage fun _ hr => hr]

theorem toList_eq (h : Assembled ctx plan paths before final) :
    plan.actions.toList = before.flatMap (·.actions) ++ final.actions := by
  rw [h.toList_eq_flatMap, List.flatMap_append, List.flatMap_singleton]

theorem paths_eq (h : Assembled ctx plan paths before final) :
    paths = (before.flatMap (·.actions)).map (·.binding.output) := by
  rw [h.rounds.paths_eq, List.flatMap_append, List.flatMap_singleton, h.isLast_final, if_pos rfl,
    List.append_nil, List.map_flatMap]
  exact List.flatMap_congr fun r hr => by rw [h.isLast_before hr, if_neg Bool.false_ne_true]

theorem outputs_final (h : Assembled ctx plan paths before final) (p : Pipeline) :
    final.outputs p = (ctx.config.pipeline p).output.toList :=
  h.rounds.outputs_of_isLast (List.mem_append_right _ (List.mem_singleton_self _)) h.isLast_final p

theorem owns_iff (h : Assembled ctx plan paths before final) {id : ActionId} :
    plan.Owns p id ↔ ∃ r ∈ before ++ [final], r.Holds p id := by
  rw [h.rounds.owns_iff, or_iff_right]
  rw [BuildPlan.Owns, AssemblyContext.pipeline_initial, PipelineUnits.all,
    PipelineUnits.ofInputs, Option.toList_none, List.append_nil, List.flatMap_map, List.mem_flatMap]
  rintro ⟨q, -, hq⟩
  exact List.not_mem_nil hq

theorem built_of_mem (h : Assembled ctx plan paths before final) {a : Action}
    (ha : a ∈ plan.actions.toList) : a.Built ctx.settings := by
  rw [h.toList_eq_flatMap] at ha
  obtain ⟨r, hr, ha⟩ := List.mem_flatMap.mp ha
  obtain ⟨pre, post, hs⟩ := List.append_of_mem hr
  obtain ha | ha := List.mem_append.mp ha
  · exact (h.rounds.row hs .device).built a ha
  · exact (h.rounds.row hs .host).built a ha

/-- A place in the list of a round belongs to the pipeline in whose row it lies. -/
theorem owns_iff_of_mem (h : Assembled ctx plan paths before final) (hr : r ∈ before ++ [final])
    {i : Nat} :
    plan.Owns p ⟨r.stage, i⟩ ↔ r.offset p ≤ i ∧ i < r.offset p + (r.row p).length := by
  rw [h.owns_iff]
  constructor
  · rintro ⟨r', hr', hs, hi⟩
    obtain rfl := List.inj_on_of_nodup_map h.nodup_stages hr hr' hs
    exact hi
  · exact fun hi => ⟨r, hr, rfl, hi⟩

/-- The actions read the sources, device first, and then every path drawn. -/
theorem flatMap_inputs (h : Assembled ctx plan paths before final) :
    plan.actions.toList.flatMap (·.binding.inputs) =
      ctx.sourcePaths .device ++ ctx.sourcePaths .host ++ paths := by
  have hreads := h.rounds.flatMap_inputs rfl
  rw [h.paths_eq, List.map_flatMap, ← hreads, h.toList_eq, List.flatMap_append, List.flatMap_append,
    List.flatMap_singleton, List.flatMap_assoc]

end Assembled

namespace AssemblyContext

open AssemblyM

variable {plan : BuildPlan} {w w' : Workspace}

/-- A plan that assembly gives comes from accepted sources and granted allocations, and what its
pipelines have come to is what the last round has written. -/
theorem assembled_ready_of_run_eq_ok (ctx : AssemblyContext)
    (ha : StagePlan.Accepted ctx.config ctx.stages)
    (h : (Assembler.standard.assemble ctx.settings ctx.stages).run w = (.ok plan, w')) :
    (∀ source ∈ ctx.config.sources, source.1.AcceptsSource source.2) ∧
      ∃ paths before final, w.allocateAll ctx.requests = (.ok paths, w') ∧
        Assembled ctx plan paths before final ∧
        ∀ p, Ready ctx p ctx.stages.activeStages plan (final.outputs p) := by
  obtain hk | ⟨before, p, q, after, hs, hk, hn⟩ := ctx.config.accepts_or_exists_first
  · obtain ⟨paths, hw, rounds, hstages, hrounds, hend⟩ := (assemble_draws ha hk).of_run_ok h
    obtain ⟨rest, hrest⟩ := ha.exists_activeStages_eq
    have hne : rounds ≠ [] := by
      rintro rfl
      rw [hrest] at hstages
      cases hstages
    obtain ⟨before, final, rfl⟩ := rounds.eq_nil_or_concat'.resolve_left hne
    refine ⟨hk, paths, before, final, hw, ⟨ha, hrounds, hstages⟩, fun p => ?_⟩
    have hp := hend p
    rwa [Rounds.frontAfter, List.getLast?_concat] at hp
  · exact absurd h (assemble_rejects ha hs hk hn).run_ne_ok

theorem assembled_of_run_eq_ok (ctx : AssemblyContext)
    (ha : StagePlan.Accepted ctx.config ctx.stages)
    (h : (Assembler.standard.assemble ctx.settings ctx.stages).run w = (.ok plan, w')) :
    (∀ source ∈ ctx.config.sources, source.1.AcceptsSource source.2) ∧
      ∃ paths before final, w.allocateAll ctx.requests = (.ok paths, w') ∧
        Assembled ctx plan paths before final := by
  obtain ⟨hk, paths, before, final, hw, hassembled, -⟩ := assembled_ready_of_run_eq_ok ctx ha h
  exact ⟨hk, paths, before, final, hw, hassembled⟩

/-- In the end the pipelines have come to their configured outputs. -/
theorem ready_of_run_eq_ok (ctx : AssemblyContext)
    (ha : StagePlan.Accepted ctx.config ctx.stages)
    (h : (Assembler.standard.assemble ctx.settings ctx.stages).run w = (.ok plan, w'))
    (p : Pipeline) :
    Ready ctx p ctx.stages.activeStages plan (ctx.config.pipeline p).output.toList := by
  obtain ⟨-, _, _, final, -, hassembled, hready⟩ := assembled_ready_of_run_eq_ok ctx ha h
  rw [← hassembled.outputs_final p]
  exact hready p

end AssemblyContext

namespace Sample

/-- Two device sources and one host source, with all stages up to link. -/
def config : Config where
  device := { inputs := [.ofString "a.cl", .ofString "b.ll"], output := some (.ofString "out.bc") }
  host := { inputs := [.ofString "main.cc"], output := some (.ofString "out") }
  database := some (.ofString "db.json")

def stages : StagePlan := StagePlan.ofOptions {}

def tools : Toolchain := Toolchain.locate .none {} {}

def workspace : Workspace := ⟨{}, NameSupply.ofSeed 0, { dir := .ofString "/" }⟩

/-- The stages assembled in the workspace. -/
def outcome : Except PipelineError BuildPlan × Workspace :=
  (Assembler.standard.assemble ⟨config, tools⟩ stages).run workspace

def temporaries : List Path := outcome.2.arena.paths

theorem exists_eq_ok_of_toBool {outcome : Except PipelineError BuildPlan × Workspace}
    (h : outcome.1.toBool = true) : ∃ plan w, outcome = (.ok plan, w) := by
  rcases outcome with ⟨_ | plan, w⟩
  · cases h
  · exact ⟨plan, w, rfl⟩

/-- What is computed of a plan tells that there is one. -/
theorem exists_eq_ok_of_map {α : Type} {outcome : Except PipelineError BuildPlan × Workspace}
    {f : BuildPlan → α} {x : α} (h : outcome.1.toOption.map f = some x) :
    ∃ plan w, outcome = (.ok plan, w) ∧ f plan = x := by
  rcases outcome with ⟨_ | plan, w⟩
  · cases h
  · exact ⟨plan, w, rfl, Option.some.inj h⟩

theorem exists_outcome_eq : ∃ plan, outcome = (.ok plan, outcome.2) := by
  have h : outcome.1.toBool = true := by decide +kernel
  obtain ⟨plan, w, ho⟩ := exists_eq_ok_of_toBool h
  exact ⟨plan, by rw [ho]⟩

theorem length_temporaries : temporaries.length = 9 := by decide +kernel

end Sample

end CompilerDriver
