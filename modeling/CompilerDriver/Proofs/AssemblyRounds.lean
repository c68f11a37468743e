import CompilerDriver.Proofs.PipelineProgress

/-!
# Assembly in rounds

Assembly goes over the active stages once. At each of them the device takes its
turn and then the host, which makes a round. A plan that comes out of assembly
is told by its rounds: the actions of a stage, the pipeline that each of them
belongs to, what they read and what they write.
-/
namespace CompilerDriver

/-- The actions that the pipelines make at a stage. -/
structure Round where
  stage : Stage
  row : Pipeline → List Action

namespace Round

/-- All actions of the round, in the order of their places. -/
def actions (r : Round) : List Action := r.row .device ++ r.row .host

/-- What the actions of a pipeline write, which is its next front. -/
def outputs (r : Round) (p : Pipeline) : List Path := (r.row p).map (·.binding.output)

/-- The first place of a pipeline in the list of the stage. -/
def offset (r : Round) : Pipeline → Nat
  | .device => 0
  | .host => (r.row .device).length

/-- The place belongs to an action of the pipeline. -/
def Holds (r : Round) (p : Pipeline) (id : ActionId) : Prop :=
  id.stage = r.stage ∧ r.offset p ≤ id.index ∧ id.index < r.offset p + (r.row p).length

theorem map_output_actions (r : Round) :
    r.actions.map (·.binding.output) = r.outputs .device ++ r.outputs .host :=
  List.map_append

/-- The round of a stage on a plan: what it adds to the plan, and the paths drawn for it. -/
structure Taken (r : Round) (ctx : AssemblyContext) (fronts : Pipeline → List Path)
    (plan : BuildPlan) (paths : List Path) (plan' : BuildPlan) : Prop where
  row : ∀ p, Row ctx.settings p r.stage (fronts p) (r.row p)
  actions : plan'.actions = plan.actions.setStage r.stage r.actions
  stages : plan'.stages = plan.stages
  owns : ∀ p id, plan'.Owns p id ↔ plan.Owns p id ∨ r.Holds p id
  identity : ∀ p, (plan'.pipeline p).units.map (·.identity) =
    (plan.pipeline p).units.map (·.identity)
  kept : ∀ p, (plan.pipeline p).combined.isSome = true →
    (plan'.pipeline p).combined.isSome = true ∧
      (plan'.pipeline p).units = (plan.pipeline p).units
  merged : r.stage = .link → ∀ p, fronts p ≠ [] →
    (plan'.pipeline p).combined.isSome = true ∧
      (plan'.pipeline p).units.mapM CompilationUnit.currentOutput = .ok (fronts p)
  outputs : ∀ p, ctx.stages.isLast r.stage = true →
    r.outputs p = (ctx.config.pipeline p).output.toList
  paths : paths = if ctx.stages.isLast r.stage then [] else r.actions.map (·.binding.output)

end Round

theorem BuildPlan.owns_congr {plan plan' : BuildPlan} {p : Pipeline}
    (h : plan'.pipeline p = plan.pipeline p) (id : ActionId) :
    plan'.Owns p id ↔ plan.Owns p id := by
  rw [Owns, Owns, h]

namespace Turn

variable {settings : BuildSettings} {p : Pipeline} {s : Stage} {front : List Path}
  {plan plan' : BuildPlan} {acts : List Action}

theorem combined_of_isSome (h : Turn settings p s front plan acts plan')
    (hc : (plan.pipeline p).combined.isSome = true) :
    (plan'.pipeline p).combined.isSome = true ∧
      (plan'.pipeline p).units = (plan.pipeline p).units := by
  have hc' : (plan'.pipeline p).combined.isSome = true := by rw [h.combined, hc, Bool.true_or]
  exact ⟨hc', h.kept hc'⟩

theorem combined_of_link (h : Turn settings p s front plan acts plan') (hs : s = .link)
    (hne : front ≠ []) :
    (plan'.pipeline p).combined.isSome = true ∧
      (plan'.pipeline p).units.mapM CompilationUnit.currentOutput = .ok front := by
  refine ⟨?_, h.merged hs⟩
  rw [h.combined, decide_eq_true hs, Bool.true_and, Bool.or_eq_true, Bool.not_eq_true',
    List.isEmpty_eq_false_iff]
  exact Or.inr hne

end Turn

namespace AssemblyContext

open AssemblyM

variable {ctx : AssemblyContext} {s : Stage} {plan mid plan' : BuildPlan}
  {fronts : Pipeline → List Path} {done rest : List Stage} {w : Workspace}

/-- The turns of the device and of the host at a stage without actions make a round. -/
theorem taken_of_turns {row : Pipeline → List Action} {paths₁ paths₂ : List Path}
    (hf : plan.actions.stage s = [])
    (hd : Turn ctx.settings .device s (fronts .device) plan (row .device) mid)
    (hh : Turn ctx.settings .host s (fronts .host) mid (row .host) plan')
    (ho₁ : ctx.Outputs s .device paths₁ (row .device))
    (ho₂ : ctx.Outputs s .host paths₂ (row .host)) :
    Round.Taken ⟨s, row⟩ ctx fronts plan (paths₁ ++ paths₂) plan' := by
  have hdevice : plan'.pipeline .device = mid.pipeline .device := hh.others .device (by decide)
  have hhost : mid.pipeline .host = plan.pipeline .host := hd.others .host (by decide)
  have hmid : mid.actions.stage s = row .device := by
    rw [hd.actions, StageActions.stage_extend_self, hf, List.nil_append]
  exact
    { row := fun p => match p with
        | .device => hd.row
        | .host => hh.row
      actions := by
        rw [hh.actions, hd.actions, StageActions.extend_extend, StageActions.extend, hf,
          List.nil_append]
        rfl
      stages := hh.stages.trans hd.stages
      owns := fun p id => by
        cases p with
        | device =>
          rw [BuildPlan.owns_congr hdevice, hd.owns, hf]
          rfl
        | host =>
          rw [hh.owns, BuildPlan.owns_congr hhost, hmid]
          rfl
      identity := fun p => by
        cases p with
        | device => rw [hdevice, hd.identity]
        | host => rw [hh.identity, hhost]
      kept := fun p hc => by
        cases p with
        | device =>
          rw [hdevice]
          exact hd.combined_of_isSome hc
        | host =>
          rw [← hhost] at hc ⊢
          exact hh.combined_of_isSome hc
      merged := fun hs p hne => by
        cases p with
        | device =>
          rw [hdevice]
          exact hd.combined_of_link hs hne
        | host => exact hh.combined_of_link hs hne
      outputs := fun p hl => by
        cases p with
        | device => exact ((outputs_iff_of_isLast hl).mp ho₁).2
        | host => exact ((outputs_iff_of_isLast hl).mp ho₂).2
      paths := by
        cases hl : ctx.stages.isLast s with
        | true =>
          rw [if_pos rfl, ((outputs_iff_of_isLast hl).mp ho₁).1,
            ((outputs_iff_of_isLast hl).mp ho₂).1]
          rfl
        | false =>
          rw [if_neg Bool.false_ne_true, ← (outputs_iff_of_not_isLast hl).mp ho₁,
            ← (outputs_iff_of_not_isLast hl).mp ho₂, Round.map_output_actions]
          rfl }

/-- The temporaries that both pipelines ask for at a stage. -/
def roundRequests (ctx : AssemblyContext) (s : Stage) : List Request :=
  ctx.requestsAt s .device ++ ctx.requestsAt s .host

theorem round_draws (ha : StagePlan.Accepted ctx.config ctx.stages)
    (hs : ctx.stages.activeStages = done ++ s :: rest)
    (hr : ∀ p, Ready ctx p done plan (fronts p)) (hk : ∀ p, Readable p s (fronts p))
    (hf : plan.actions.stage s = []) :
    Draws ((StageAssembler.ofStage s).runPipelines ctx plan) (ctx.roundRequests s) w
      fun paths plan' => ∃ r : Round, r.stage = s ∧ r.Taken ctx fronts plan paths plan' ∧
        (∀ p, Ready ctx p (done ++ [s]) plan' (r.outputs p)) ∧
        (ctx.stages.isLast s = false → ∀ p s', Readable p s' (r.outputs p)) := by
  rw [StageAssembler.runPipelines_eq]
  refine ((hr .device).turn_draws ha hs (hk .device)).bind ?_
  rintro paths₁ mid w₁ - ⟨device, hd, ho₁, hn₁⟩
  have hmid : Ready ctx .host done mid (fronts .host) :=
    (hr .host).of_pipeline_eq (hd.others .host (by decide))
  refine (hmid.turn_draws ha hs (hk .host)).mono ?_
  rintro paths₂ plan' - ⟨host, hh, ho₂, hn₂⟩
  refine ⟨⟨s, fun | .device => device | .host => host⟩, rfl, taken_of_turns hf hd hh ho₁ ho₂,
    fun p => ?_, fun hl p => ?_⟩
  · cases p with
    | device => exact ((hr .device).after hd).of_pipeline_eq (hh.others .device (by decide))
    | host => exact hmid.after hh
  · cases p with
    | device => exact hn₁ hl
    | host => exact hn₂ hl

end AssemblyContext

/-- Rounds of assembly one after another, each with the outputs of the one before as its fronts,
and the paths drawn for them. -/
inductive Rounds (ctx : AssemblyContext) :
    (Pipeline → List Path) → BuildPlan → List Round → List Path → BuildPlan → Prop where
  | nil {fronts : Pipeline → List Path} {plan : BuildPlan} : Rounds ctx fronts plan [] [] plan
  | cons {fronts : Pipeline → List Path} {plan mid plan' : BuildPlan} {r : Round}
      {rest : List Round} {paths paths' : List Path} : r.Taken ctx fronts plan paths mid →
      Rounds ctx r.outputs mid rest paths' plan' →
      Rounds ctx fronts plan (r :: rest) (paths ++ paths') plan'

namespace Rounds

/-- What a round starts from: the outputs of the round before, or the first fronts. -/
def frontAfter (fronts : Pipeline → List Path) (before : List Round) (p : Pipeline) : List Path :=
  match before.getLast? with
  | none => fronts p
  | some r => r.outputs p

theorem frontAfter_cons (fronts : Pipeline → List Path) (r : Round) (rest : List Round)
    (p : Pipeline) : frontAfter fronts (r :: rest) p = frontAfter r.outputs rest p := by
  unfold frontAfter
  rw [List.getLast?_cons]
  cases rest.getLast? <;> rfl

end Rounds

namespace AssemblyContext

open AssemblyM

variable {ctx : AssemblyContext} {plan : BuildPlan} {fronts : Pipeline → List Path}
  {done rest : List Stage} {w : Workspace}

/-- The stages that remain are assembled in rounds, after which both pipelines are ready with what
the last round has written. -/
theorem rounds_draws (ha : StagePlan.Accepted ctx.config ctx.stages)
    (hs : ctx.stages.activeStages = done ++ rest)
    (hr : ∀ p, Ready ctx p done plan (fronts p))
    (hk : ∀ s ∈ rest.head?, ∀ p, Readable p s (fronts p))
    (hf : ∀ s ∈ rest, plan.actions.stage s = []) :
    Draws (rest.foldlM (fun plan s => (StageAssembler.ofStage s).runPipelines ctx plan) plan)
      (rest.flatMap ctx.roundRequests) w
      fun paths plan' => ∃ rounds, rounds.map (·.stage) = rest ∧
        Rounds ctx fronts plan rounds paths plan' ∧
        ∀ p, Ready ctx p (done ++ rest) plan' (Rounds.frontAfter fronts rounds p) := by
  -- What a round hands on is `Ready` of both pipelines and a front that can be read anywhere.
  induction rest generalizing done plan fronts w with
  | nil => exact draws_pure ⟨[], rfl, .nil, fun p => by rw [List.append_nil]; exact hr p⟩
  | cons s rest ih =>
    rw [List.foldlM_cons, List.flatMap_cons]
    refine (round_draws ha hs hr (hk s rfl) (hf s List.mem_cons_self)).bind ?_
    rintro paths mid w₁ - ⟨r, rfl, htaken, hready, hreadable⟩
    have hs' : ctx.stages.activeStages = (done ++ [r.stage]) ++ rest := by
      rw [hs, List.append_assoc, List.singleton_append]
    refine (ih hs' hready (fun s' hs' p => ?_) fun s' hs' => ?_).mono ?_
    · refine hreadable ?_ p s'
      rw [← Bool.not_eq_true, StagePlan.isLast_iff_of_split hs]
      rintro rfl
      cases hs'
    · have hne : s' ≠ r.stage := fun he =>
        Nat.lt_irrefl _ (he ▸ (StagePlan.index_lt_of_split hs).2 s' hs')
      rw [htaken.actions, StageActions.stage_setStage_of_ne _ _ hne]
      exact hf s' (List.mem_cons_of_mem _ hs')
    · rintro paths' plan' - ⟨rounds, hrounds, h, hend⟩
      refine ⟨r :: rounds, by rw [List.map_cons, hrounds], .cons htaken h, fun p => ?_⟩
      have hp := hend p
      rw [List.append_assoc, List.singleton_append] at hp
      rwa [Rounds.frontAfter_cons]

end AssemblyContext

end CompilerDriver
