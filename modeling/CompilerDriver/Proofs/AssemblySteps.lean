import CompilerDriver.Proofs.Dataflow
import CompilerDriver.Proofs.WorkspaceGrowth
import Mathlib.Logic.Relation

/-!
# Assembly by single changes

An assembler may have any steps, also several for one stage. All that they do to
a plan is to give a pipeline its combined unit, or to move one unit on to the
output of a new action and record the place of the action. What these two
changes keep is true of every plan.
-/
namespace CompilerDriver

/-- The action may have been built for the unit: its command spells out its files, and unless its
kind merges, it reads what the unit was to read next. -/
structure CompilationUnit.Fits (u : CompilationUnit) (a : Action) : Prop where
  spelled : a.Spelled
  inputs : a.kind.arity = .single → a.binding.inputs.map some = [u.nextInput]

namespace Action

variable {settings : BuildSettings} {fs : FileSystem} {kind : ActionKind} {a : Action}
  {u : CompilationUnit} {others : List CompilationUnit} {o : Path} {b : Binding}

theorem bind_append (h : bind kind (u.append o) others = .ok b) :
    b.output = o ∧ (kind.arity = .single → b.inputs.map some = [u.nextInput]) := by
  have hinput {input : Path} (hi : (u.append o).currentInput = .ok input) :
      [some input] = [u.nextInput] := by
    rw [CompilationUnit.currentInput_append] at hi
    cases hn : u.nextInput with
    | none =>
      rw [hn] at hi
      cases hi
    | some q =>
      rw [hn] at hi
      cases hi
      rfl
  unfold bind at h
  split at h
  · next ha =>
    obtain ⟨output, ho, h⟩ := exists_of_bind_eq_ok h
    obtain ⟨inputs, -, h⟩ := exists_of_bind_eq_ok h
    cases ho
    cases h
    exact ⟨rfl, fun hs => by rw [ha] at hs; cases hs⟩
  · obtain ⟨input, hi, h⟩ := exists_of_bind_eq_ok h
    obtain ⟨output, ho, h⟩ := exists_of_bind_eq_ok h
    cases ho
    cases h
    exact ⟨rfl, fun _ => hinput hi⟩
  · obtain ⟨output, ho, h⟩ := exists_of_bind_eq_ok h
    obtain ⟨input, hi, h⟩ := exists_of_bind_eq_ok h
    cases ho
    cases h
    exact ⟨rfl, fun _ => hinput hi⟩

/-- An action that is built for a unit with a new output writes this output. -/
theorem fits_of_build (h : build settings fs kind (u.append o :: others) = .ok a) :
    u.Fits a ∧ a.binding.output = o := by
  have ht := (of_build_eq_ok h).1
  unfold build at h
  obtain ⟨-, -, h⟩ := exists_of_bind_eq_ok h
  obtain ⟨template, -, h⟩ := exists_of_bind_eq_ok h
  obtain ⟨binding, hb, h⟩ := exists_of_bind_eq_ok h
  obtain ⟨ho, hin⟩ := bind_append hb
  cases h
  refine ⟨⟨spelled_of_template ht fun hk => ?_, hin⟩, ho⟩
  have hs : kind.arity = .single := by
    have hcopy : kind = .copy := hk
    rw [hcopy]
    rfl
  obtain ⟨input, hb, -⟩ := List.map_eq_singleton_iff.mp (hin hs)
  exact ⟨input, hb⟩

end Action

/-- One unit of a pipeline, which may be the combined one, gives way to another. -/
inductive PipelineUnits.Replaces (u u' : CompilationUnit) : PipelineUnits → PipelineUnits → Prop
    where
  | unit (before after : List CompilationUnit) (combined : Option CompilationUnit) :
      Replaces u u' ⟨before ++ u :: after, combined⟩ ⟨before ++ u' :: after, combined⟩
  | combined (units : List CompilationUnit) : Replaces u u' ⟨units, some u⟩ ⟨units, some u'⟩

namespace BuildPlan

/-- A single change that assembly makes to a plan. -/
inductive Step (stages : StagePlan) : BuildPlan → BuildPlan → Prop where
  | combine {plan : BuildPlan} {p : Pipeline} {output : Path} :
      (plan.pipeline p).combined = none →
      Step stages plan
        (plan.put p { plan.pipeline p with combined := some (.combined output) } plan.actions)
  | advance {plan : BuildPlan} {p : Pipeline} {s : Stage} {u : CompilationUnit} {a : Action}
      {units : PipelineUnits} : stages.isActive s = true → u.Fits a →
      PipelineUnits.Replaces u (u.advance a ⟨s, (plan.actions.stage s).length⟩) (plan.pipeline p)
        units →
      Step stages plan (plan.put p units (plan.actions.extend s [a]))

/-- The second plan comes from the first one by such changes. -/
def Reaches (stages : StagePlan) : BuildPlan → BuildPlan → Prop :=
  Relation.ReflTransGen (Step stages)

variable (plan : BuildPlan) (p : Pipeline)

theorem put_pipeline : plan.put p (plan.pipeline p) plan.actions = plan := by
  cases p <;> rfl

theorem put_put (units units' : PipelineUnits) (actions actions' : StageActions) :
    (plan.put p units actions).put p units' actions' = plan.put p units' actions' := by
  cases p <;> rfl

end BuildPlan

namespace AssemblyM

variable {α β γ : Type} {m : AssemblyM α} {f : α → AssemblyM β} {P : α → Prop} {S : β → Prop}

/-- Steps one after the other, where all that counts is what they return. -/
theorem Obeys.bind_returns (h : Obeys m fun _ a _ => P a)
    (hf : ∀ a, P a → Obeys (f a) fun _ b _ => S b) : Obeys (m >>= f) fun _ b _ => S b := by
  intro w
  obtain ⟨hgrows, hp⟩ := h w
  rw [run_bind]
  rcases hm : m.run w with ⟨e | a, mid⟩
  · rw [hm] at hgrows
    exact ⟨hgrows, fun b hb => by cases hb⟩
  · rw [hm] at hgrows hp
    obtain ⟨hgrows', hs⟩ := hf a (hp a rfl) mid
    exact ⟨hgrows.trans hgrows', hs⟩

/-- A property that every step of a loop keeps is one of the result. -/
theorem Obeys.foldlM_returns {step : β → γ → AssemblyM β} {xs : List γ}
    (h : ∀ x ∈ xs, ∀ b, S b → Obeys (step b x) fun _ b' _ => S b') {b : β} (hb : S b) :
    Obeys (xs.foldlM step b) fun _ b' _ => S b' := by
  induction xs generalizing b with
  | nil => exact obeys_pure fun _ => hb
  | cons x rest ih =>
    obtain ⟨hx, hrest⟩ := List.forall_mem_cons.mp h
    rw [List.foldlM_cons]
    exact (hx b hb).bind_returns fun b' hb' => ih hrest hb'

end AssemblyM

section Steps

open AssemblyM BuildPlan

variable {ctx : AssemblyContext} {p : Pipeline} {s : Stage} {final : Option Path}
  {extension : String} {plan : BuildPlan}

namespace AssemblyContext

theorem buildAction_fits (kind : ActionKind) (u : CompilationUnit) (o : Path)
    (others : List CompilationUnit) :
    Obeys (ctx.buildAction kind (u.append o :: others)) fun _ a _ =>
      u.Fits a ∧ a.binding.output = o := by
  intro w
  refine ⟨(buildAction_obeys kind _ w).1, fun a ha => ?_⟩
  rw [run_buildAction] at ha
  exact Action.fits_of_build ha

/-- A unit moves on by the action that is built for it. -/
theorem assembleUnit_advances (u : CompilationUnit) (actions : StageActions) :
    Obeys (ctx.assembleUnit p s final extension u actions) fun _ r _ => ∃ a, u.Fits a ∧
      r = (u.advance a ⟨s, (actions.stage s).length⟩, actions.extend s [a]) := by
  unfold assembleUnit
  refine (obeys_ofExcept fun _ _ _ => trivial).bind_returns (P := fun _ => True) fun kind _ => ?_
  refine u.attachOutput_appends.bind_returns ?_
  rintro _ ⟨o, rfl⟩
  refine (buildAction_fits kind u o []).bind_returns ?_
  rintro a ⟨ha, rfl⟩
  exact obeys_pure fun _ => ⟨a, ha, rfl⟩

/-- Units that are bound one by one move on one after the other. -/
theorem assembleUnits_reaches (hs : ctx.stages.isActive s = true)
    {before units : List CompilationUnit} (hu : (plan.pipeline p).units = before ++ units) :
    Obeys (ctx.assembleUnits p s final extension units plan.actions) fun _ r _ =>
      Reaches ctx.stages plan
        (plan.put p { plan.pipeline p with units := before ++ r.1 } r.2) := by
  -- The units before the current one have moved on already, and stand in the plan as such.
  induction units generalizing before plan with
  | nil =>
    have hself : plan.put p { plan.pipeline p with units := before ++ [] } plan.actions = plan := by
      rw [← hu]
      exact plan.put_pipeline p
    refine obeys_pure fun _ => ?_
    rw [hself]
    exact .refl
  | cons u rest ih =>
    unfold assembleUnits
    refine (assembleUnit_advances u plan.actions).bind_returns ?_
    rintro _ ⟨a, ha, rfl⟩
    let u' := u.advance a ⟨s, (plan.actions.stage s).length⟩
    let mid := plan.put p { plan.pipeline p with units := before ++ (u' :: rest) }
      (plan.actions.extend s [a])
    have hreplaces : PipelineUnits.Replaces u u' (plan.pipeline p)
        { plan.pipeline p with units := before ++ (u' :: rest) } := by
      have hp : plan.pipeline p = ⟨before ++ u :: rest, (plan.pipeline p).combined⟩ := by rw [← hu]
      rw [hp]
      exact .unit before rest _
    have hstep : Step ctx.stages plan mid := .advance hs ha hreplaces
    have hmid : (mid.pipeline p).units = (before ++ [u']) ++ rest := by
      rw [plan.pipeline_put_self, List.append_assoc, List.singleton_append]
    have hactions : mid.actions = plan.actions.extend s [a] := rfl
    dsimp only
    rw [← hactions]
    refine (ih hmid).bind_returns ?_
    rintro ⟨units', actions'⟩ hreaches
    rw [plan.put_put, plan.pipeline_put_self, List.append_assoc, List.singleton_append]
      at hreaches
    exact obeys_pure fun _ => .head hstep hreaches

theorem perUnit_reaches (hs : ctx.stages.isActive s = true) :
    Obeys (ctx.perUnit s p plan) fun _ plan' _ => Reaches ctx.stages plan plan' := by
  have hunits (final : Option Path) :
      Obeys (do
        let r ← ctx.assembleUnits p s final (ctx.tempFormat s).extension (plan.pipeline p).units
          plan.actions
        return plan.put p { plan.pipeline p with units := r.1 } r.2)
        fun _ plan' _ => Reaches ctx.stages plan plan' := by
    refine (assembleUnits_reaches hs (List.nil_append _).symm).bind_returns ?_
    exact fun r hreaches => obeys_pure fun _ => hreaches
  unfold perUnit
  dsimp only
  split_ifs
  · cases ctx.finalOutput p with
    | error e => exact obeys_throw e
    | ok path => exact hunits (some path)
  · exact hunits none

/-- The combined unit moves on, and is made before if it is not there yet. -/
theorem link_reaches (hs : ctx.stages.isActive .link = true) :
    Obeys (ctx.link p plan) fun _ plan' _ => Reaches ctx.stages plan plan' := by
  unfold link
  refine (obeys_ofExcept fun _ _ _ => trivial).bind_returns (P := fun _ => True) fun output _ => ?_
  refine (obeys_ofExcept fun _ _ _ => trivial).bind_returns (P := fun _ => True) fun kind? _ => ?_
  cases kind? with
  | none => exact obeys_throw _
  | some kind =>
    refine (CompilationUnit.attachOutput_appends _).bind_returns ?_
    rintro _ ⟨o, rfl⟩
    refine (buildAction_fits kind _ o _).bind_returns ?_
    rintro a ⟨ha, rfl⟩
    refine obeys_pure fun _ => ?_
    cases hc : (plan.pipeline p).combined with
    | some u =>
      rw [hc, Option.getD_some] at ha
      have hreplaces : PipelineUnits.Replaces u
          (u.advance a ⟨.link, (plan.actions.stage .link).length⟩) (plan.pipeline p)
          { plan.pipeline p with
            combined := some (u.advance a ⟨.link, (plan.actions.stage .link).length⟩) } := by
        have hp : plan.pipeline p = ⟨(plan.pipeline p).units, some u⟩ := by rw [← hc]
        rw [hp]
        exact .combined _
      exact .single (.advance hs ha hreplaces)
    | none =>
      rw [hc, Option.getD_none] at ha
      let mid := plan.put p { plan.pipeline p with combined := some (.combined output) }
        plan.actions
      have hmid : mid.pipeline p = ⟨(plan.pipeline p).units, some (.combined output)⟩ :=
        plan.pipeline_put_self p _ _
      have hreplaces : PipelineUnits.Replaces (.combined output)
          ((CompilationUnit.combined output).advance a ⟨.link, (mid.actions.stage .link).length⟩)
          (mid.pipeline p) { plan.pipeline p with
            combined := some ((CompilationUnit.combined output).advance a
              ⟨.link, (mid.actions.stage .link).length⟩) } := by
        rw [hmid]
        exact .combined _
      have hadvance : Step ctx.stages mid (mid.put p _ _) := .advance hs ha hreplaces
      rw [plan.put_put] at hadvance
      exact .head (.combine hc) (.single hadvance)

theorem replaces_setCarrier {units : PipelineUnits} {u : CompilationUnit} (u' : CompilationUnit)
    (h : carrierOf s units = .ok u) : PipelineUnits.Replaces u u' units (setCarrier units u') := by
  obtain ⟨units, combined⟩ := units
  unfold carrierOf at h
  split at h
  · next hc =>
    cases h
    obtain rfl : combined = _ := hc
    exact .combined units
  · next hc hu =>
    cases h
    obtain rfl : combined = none := hc
    obtain rfl : units = [u] := hu
    exact .unit [] [] none
  · cases h

theorem carrier_reaches (hs : ctx.stages.isActive s = true) :
    Obeys (ctx.carrier s p plan) fun _ plan' _ => Reaches ctx.stages plan plan' := by
  unfold carrier
  dsimp only
  split_ifs
  · exact obeys_throw (.stageOrdering s)
  · refine (obeys_ofExcept fun _ _ _ => trivial).bind_returns (P := fun _ => True)
      fun output _ => ?_
    refine (obeys_ofExcept fun _ hu _ => hu).bind_returns fun u hu => ?_
    refine (assembleUnit_advances u plan.actions).bind_returns ?_
    rintro _ ⟨a, ha, rfl⟩
    exact obeys_pure fun _ => .single (.advance hs ha (replaces_setCarrier _ hu))

end AssemblyContext

namespace StageAssembler

theorem run_reaches (a : StageAssembler) (hs : ctx.stages.isActive a.stage = true) :
    Obeys (a.run ctx p plan) fun _ plan' _ => Reaches ctx.stages plan plan' := by
  cases a with
  | perUnit s => exact AssemblyContext.perUnit_reaches hs
  | link => exact AssemblyContext.link_reaches hs
  | carrier s => exact AssemblyContext.carrier_reaches hs

theorem runPipelines_reaches (a : StageAssembler) (hs : ctx.stages.isActive a.stage = true)
    {start : BuildPlan} (hp : Reaches ctx.stages start plan) :
    Obeys (a.runPipelines ctx plan) fun _ plan' _ => Reaches ctx.stages start plan' := by
  refine Obeys.foldlM_returns (fun p _ plan hplan => ?_) hp
  split_ifs
  · exact (a.run_reaches hs).mono fun _ _ _ h => hplan.trans h
  · exact obeys_pure fun _ => hplan

end StageAssembler

/-- Whatever the steps of the assembler are, a plan that comes out of assembly is reached from the
initial one by single changes. -/
theorem Assembler.reaches_of_assemble {a : Assembler} {settings : BuildSettings}
    {stages : StagePlan} {w w' : Workspace}
    (h : (a.assemble settings stages).run w = (.ok plan, w')) :
    Reaches stages (.initial stages settings.config) plan := by
  have hreaches : Obeys (a.assemble settings stages) fun _ plan _ =>
      Reaches stages (.initial stages settings.config) plan := by
    refine Obeys.foldlM_returns (fun step hstep mid hmid => ?_) .refl
    have hs : stages.isActive step.stage = true := (List.mem_filter.mp hstep).2
    have hrun : Obeys (step.runPipelines ⟨settings, stages⟩ mid) fun _ plan' _ =>
        Reaches stages (.initial stages settings.config) plan' := step.runPipelines_reaches hs hmid
    exact hrun
  exact (hreaches w).2 plan (by rw [h])

end Steps

end CompilerDriver
