import CompilerDriver.Proofs.Dataflow

/-!
# Where the configured outputs are written

The last active stage writes the configured outputs, one action for each
pipeline with inputs, and every other stage writes temporaries alone. So the
temporaries of a plan are the outputs of the earlier stages, in the order in
which the actions run. What an action writes is the output that its command spells
out.
-/
namespace CompilerDriver

/-- The pipelines that take part in a build, in the order in which every stage visits them. -/
def Config.activePipelines (c : Config) : List Pipeline :=
  Pipeline.all.filter fun p => (c.pipeline p).isActive

theorem Config.activePipelines_eq_append (c : Config) :
    c.activePipelines = ([Pipeline.device].filter fun p => (c.pipeline p).isActive) ++
      [Pipeline.host].filter fun p => (c.pipeline p).isActive := by
  rw [← List.filter_append]
  rfl

/-- The actions of the stages before a stage, in the order they run. -/
def StageActions.before (t : StageActions) (s : Stage) : List Action :=
  (Stage.all.filter fun r => decide (r.index < s.index)).flatMap t.stage

/-- The final-output rule of a plan with these temporaries. -/
structure FinalOutputs (c : Config) (stages : StagePlan) (plan : BuildPlan)
    (temporaries : List Path) : Prop where
  /-- The outputs below are those that the commands name. -/
  spelled : ∀ id a, plan.actions.get? id = some a → a.Spelled
  last : stages.activeStages.getLast? = some stages.last
  toList : plan.actions.toList =
    plan.actions.before stages.last ++ plan.actions.stage stages.last
  /-- One action of the last stage for each pipeline, which writes the output of the pipeline. -/
  finals : List.Forall₂ (fun p a => (c.pipeline p).output = some a.binding.output)
    c.activePipelines (plan.actions.stage stages.last)
  owners : ∀ i p, plan.Owns p ⟨stages.last, i⟩ ↔ c.activePipelines[i]? = some p
  earlier : (plan.actions.before stages.last).map (·.binding.output) = temporaries
  count : temporaries.length + c.activePipelines.length = plan.actions.size

namespace Assembled

variable {ctx : AssemblyContext} {plan : BuildPlan} {paths : List Path} {before : List Round}
  {final r : Round} {p : Pipeline} {s : Stage}

theorem length_row_final (h : Assembled ctx plan paths before final) (p : Pipeline) :
    (final.row p).length = if (ctx.config.pipeline p).isActive then 1 else 0 := by
  have hlen := congrArg List.length (h.outputs_final p)
  rw [Round.outputs, List.length_map] at hlen
  rw [hlen, ← h.accepted.output p]
  cases (ctx.config.pipeline p).output <;> rfl

/-- The active pipelines, each as often as it has actions in the last round. -/
theorem activePipelines_eq (h : Assembled ctx plan paths before final) :
    ctx.config.activePipelines = List.replicate (final.row .device).length .device ++
      List.replicate (final.row .host).length .host := by
  have hone (p : Pipeline) : ([p].filter fun p => (ctx.config.pipeline p).isActive) =
      List.replicate (final.row p).length p := by
    rw [h.length_row_final, List.filter_cons]
    cases (ctx.config.pipeline p).isActive <;> rfl
  rw [← hone, ← hone, Config.activePipelines_eq_append]

/-- The places of the last stage belong to the active pipelines in their order. -/
theorem owns_last_iff (h : Assembled ctx plan paths before final) (i : Nat) (p : Pipeline) :
    plan.Owns p ⟨ctx.stages.last, i⟩ ↔ ctx.config.activePipelines[i]? = some p := by
  rw [← h.stage_final, h.owns_iff_of_mem (List.mem_append_right _ (List.mem_singleton_self _)),
    h.activePipelines_eq, List.getElem?_append, List.getElem?_replicate, List.getElem?_replicate,
    List.length_replicate]
  cases p with
  | device =>
    rw [Round.offset, Nat.zero_add]
    split_ifs with hd hh
    · simp [hd]
    · simp [hd]
    · simp [hd]
  | host =>
    rw [Round.offset]
    split_ifs with hd hh
    · simp
      omega
    · simp
      omega
    · simp
      omega

theorem forall₂_row_final (h : Assembled ctx plan paths before final) (p : Pipeline) :
    List.Forall₂ (fun p a => (ctx.config.pipeline p).output = some a.binding.output)
      ([p].filter fun p => (ctx.config.pipeline p).isActive) (final.row p) := by
  have hout := h.outputs_final p
  have hactive := h.accepted.output p
  unfold Round.outputs at hout
  cases ho : (ctx.config.pipeline p).output with
  | none =>
    rw [ho, Option.toList_none, List.map_eq_nil_iff] at hout
    rw [ho] at hactive
    rw [hout, List.filter_cons, ← hactive]
    exact .nil
  | some output =>
    rw [ho, Option.toList_some] at hout
    obtain ⟨a, ha, hoa⟩ := List.map_eq_singleton_iff.mp hout
    rw [ho] at hactive
    rw [ha, List.filter_cons, ← hactive]
    exact .cons (by rw [ho, hoa]) .nil

theorem forall₂_actions_final (h : Assembled ctx plan paths before final) :
    List.Forall₂ (fun p a => (ctx.config.pipeline p).output = some a.binding.output)
      ctx.config.activePipelines final.actions := by
  rw [Config.activePipelines_eq_append, Round.actions]
  exact List.rel_append (h.forall₂_row_final .device) (h.forall₂_row_final .host)

theorem before_last_eq (h : Assembled ctx plan paths before final) :
    plan.actions.before ctx.stages.last = before.flatMap (·.actions) := by
  -- Inactive stages have no actions, so the active ones before the last are all that counts.
  have hbefore : (ctx.stages.activeStages.filter fun r => decide (r.index < final.stage.index)) =
      before.map (·.stage) := by
    rw [h.activeStages_eq, List.filter_append, List.filter_eq_self.mpr, List.filter_eq_nil_iff.mpr,
      List.append_nil]
    · simp
    · intro s hs
      obtain ⟨r, hr, rfl⟩ := List.mem_map.mp hs
      exact decide_eq_true (h.index_lt hr)
  rw [StageActions.before, ← h.stage_final,
    ← StagePlan.flatMap_filter_isActive fun s hs => h.stage_eq_nil hs, List.filter_comm,
    ← StagePlan.activeStages, hbefore, h.flatMap_stage fun r hr => List.mem_append_left _ hr]

end Assembled

/-- Wherever the stages end, each pipeline with inputs writes its output at the last stage, and
all that is written before goes to the temporaries in the order they are created. -/
theorem finalOutputs_of_assemble {c : Config} {tools : Toolchain} {stages : StagePlan}
    {plan : BuildPlan} {w w' : Workspace} (hr : StagePlan.resolve c = .ok stages)
    (hw : w.arena.paths = [])
    (ha : (Assembler.standard.assemble ⟨c, tools⟩ stages).run w = (.ok plan, w')) :
    FinalOutputs c stages plan w'.arena.paths := by
  have haccepted := StagePlan.accepted_of_resolve hr
  obtain ⟨-, paths, before, final, hpaths, h⟩ :=
    AssemblyContext.assembled_of_run_eq_ok ⟨⟨c, tools⟩, stages⟩ haccepted ha
  have harena : w'.arena.paths = paths := by
    rw [(Workspace.allocateAll_ok hpaths).1, hw, List.nil_append]
  have hfinals : List.Forall₂ (fun p a => (c.pipeline p).output = some a.binding.output)
      c.activePipelines (plan.actions.stage stages.last) := by
    rw [h.stage_last]
    exact h.forall₂_actions_final
  refine
    { spelled := fun id a hget => h.spelled hget
      last := by rw [h.getLast?_activeStages, h.stage_final]
      toList := by rw [h.before_last_eq, h.stage_last, h.toList_eq]
      finals := hfinals
      owners := h.owns_last_iff
      earlier := by rw [h.before_last_eq, harena, h.paths_eq]
      count := ?_ }
  rw [StageActions.size, h.toList_eq, List.length_append, harena, h.paths_eq, List.length_map,
    hfinals.length_eq, h.stage_last]

theorem finalOutputs_of_sample :
    ∃ plan, FinalOutputs Sample.config Sample.stages plan Sample.temporaries ∧
      plan.actions.size = 11 := by
  obtain ⟨plan, hrun⟩ := Sample.exists_outcome_eq
  have h : FinalOutputs Sample.config Sample.stages plan Sample.temporaries :=
    finalOutputs_of_assemble rfl rfl hrun
  exact ⟨plan, h, by rw [← h.count, Sample.length_temporaries]; rfl⟩

end CompilerDriver
