import CompilerDriver.Proofs.UnitAdvance

/-!
# The turn of a pipeline at a stage

A stage binds the artifacts that a pipeline has reached, its front, to new
actions, and the outputs of these actions are the next front. The link stage
binds the whole front to one action; every other stage binds each artifact to
an action of its own. All three ways to change the units are such turns.
-/
namespace CompilerDriver

namespace Stage

/-- What the actions of a stage read of a front. -/
def reads (s : Stage) (front : List Path) : List (List Path) :=
  if s = .link then (if front = [] then [] else [front]) else front.map ([·])

theorem reads_of_ne_link {s : Stage} (h : s ≠ .link) (front : List Path) :
    s.reads front = front.map ([·]) := if_neg h

theorem reads_link {front : List Path} (h : front ≠ []) : Stage.link.reads front = [front] := by
  rw [reads, if_pos rfl, if_neg h]

@[simp] theorem reads_nil (s : Stage) : s.reads [] = [] := by
  unfold reads
  split <;> rfl

@[simp] theorem flatten_reads (s : Stage) (front : List Path) :
    (s.reads front).flatten = front := by
  unfold reads
  split
  · split
    · next h => exact h.symm
    · simp
  · induction front with
    | nil => rfl
    | cons q front ih => rw [List.map_cons, List.flatten_cons, ih, List.singleton_append]

end Stage

theorem ActionKind.dispatch_of_ne_compile {p : Pipeline} {s : Stage} {format : Option Format}
    (hs : s ≠ .compile) (h : (dispatch p s format).isSome = true) :
    dispatch p s format = some (ofIntermediate p s) := by
  rcases format with _ | _ | _ | _ | _
  · cases h
  · simp [dispatch, hs] at h
  · simp [dispatch, hs] at h
  · rfl
  · rfl

namespace PipelineUnits

/-- The units that carry the artifacts of a pipeline on: the combined one, once it is there. -/
def carriers (u : PipelineUnits) : List CompilationUnit :=
  match u.combined with
  | some combined => [combined]
  | none => u.units

theorem carriers_of_combined_eq_none {u : PipelineUnits} (h : u.combined = none) :
    u.carriers = u.units := by
  rw [carriers, h]

theorem all_of_combined_eq_none {u : PipelineUnits} (h : u.combined = none) :
    u.all = u.units := by
  rw [all, h, Option.toList_none, List.append_nil]

theorem all_of_combined_eq_some {u : PipelineUnits} {combined : CompilationUnit}
    (h : u.combined = some combined) : u.all = u.units ++ [combined] := by
  rw [all, h, Option.toList_some]

end PipelineUnits

namespace BuildPlan

/-- The action at a place belongs to a pipeline, one of whose units records the place. -/
def Owns (plan : BuildPlan) (p : Pipeline) (id : ActionId) : Prop :=
  id ∈ (plan.pipeline p).all.flatMap (·.actions)

/-- The plan with new units of a pipeline and new actions. -/
def put (plan : BuildPlan) (p : Pipeline) (units : PipelineUnits) (actions : StageActions) :
    BuildPlan :=
  { plan.setPipeline p units with actions := actions }

variable (plan : BuildPlan) (p : Pipeline) (units : PipelineUnits) (actions : StageActions)

@[simp] theorem pipeline_put_self : (plan.put p units actions).pipeline p = units := by
  cases p <;> rfl

theorem pipeline_put_of_ne {q : Pipeline} (h : q ≠ p) :
    (plan.put p units actions).pipeline q = plan.pipeline q := by
  cases p <;> cases q <;> first | rfl | exact absurd rfl h

@[simp] theorem stages_put : (plan.put p units actions).stages = plan.stages := by
  cases p <;> rfl

end BuildPlan

/-- The actions that a stage makes of a front: what each of them reads, and the kind that follows
from the form of what it reads. -/
structure Row (settings : BuildSettings) (p : Pipeline) (s : Stage) (front : List Path)
    (actions : List Action) : Prop where
  inputs : actions.map (·.binding.inputs) = s.reads front
  kind : ∀ a ∈ actions, ∀ q ∈ a.binding.inputs,
    ActionKind.dispatch p s (Format.ofPath? q) = some a.kind
  built : ∀ a ∈ actions, a.Built settings

theorem Row.nil (settings : BuildSettings) (p : Pipeline) (s : Stage) : Row settings p s [] [] :=
  ⟨(s.reads_nil).symm, by simp, by simp⟩

/-- The turn of a pipeline at a stage. Nothing else in the plan changes. -/
structure Turn (settings : BuildSettings) (p : Pipeline) (s : Stage) (front : List Path)
    (plan : BuildPlan) (acts : List Action) (plan' : BuildPlan) : Prop where
  row : Row settings p s front acts
  actions : plan'.actions = plan.actions.extend s acts
  stages : plan'.stages = plan.stages
  others : ∀ q ≠ p, plan'.pipeline q = plan.pipeline q
  owns : ∀ id, plan'.Owns p id ↔ plan.Owns p id ∨
    (id.stage = s ∧ (plan.actions.stage s).length ≤ id.index ∧
      id.index < (plan.actions.stage s).length + acts.length)
  identity : (plan'.pipeline p).units.map (·.identity) = (plan.pipeline p).units.map (·.identity)
  current : (plan'.pipeline p).carriers.map (·.current) = acts.map fun a => some a.binding.output
  combined : (plan'.pipeline p).combined.isSome =
    ((plan.pipeline p).combined.isSome || (decide (s = .link) && !front.isEmpty))
  kept : (plan'.pipeline p).combined.isSome = true →
    (plan'.pipeline p).units = (plan.pipeline p).units
  merged : s = .link → (plan'.pipeline p).units.mapM CompilationUnit.currentOutput = .ok front

/-- The turn of a pipeline without units. -/
theorem Turn.idle {settings : BuildSettings} {p : Pipeline} {s : Stage} {plan : BuildPlan}
    (hu : (plan.pipeline p).units = []) (hc : (plan.pipeline p).combined = none) :
    Turn settings p s [] plan [] plan where
  row := Row.nil settings p s
  actions := (StageActions.extend_nil _ _).symm
  stages := rfl
  others := fun _ _ => rfl
  owns := fun id => by
    rw [List.length_nil]
    exact ⟨Or.inl, fun h => h.resolve_right fun ⟨_, hl, hr⟩ => by omega⟩
  identity := rfl
  current := by rw [PipelineUnits.carriers_of_combined_eq_none hc, hu]; rfl
  combined := by simp
  kept := fun _ => rfl
  merged := fun _ => by rw [hu]; rfl

namespace AssemblyContext

open CompilationUnit

section Carrier

variable {units : PipelineUnits} {u u' : CompilationUnit}

theorem combined_setCarrier :
    (setCarrier units u').combined.isSome = units.combined.isSome := by
  unfold setCarrier
  cases hc : units.combined with
  | some _ => rfl
  | none => rfl

theorem carriers_setCarrier : (setCarrier units u').carriers = [u'] := by
  unfold setCarrier
  cases hc : units.combined with
  | some _ => rfl
  | none => rfl

theorem units_setCarrier (h : units.combined.isSome = true) :
    (setCarrier units u').units = units.units := by
  unfold setCarrier
  cases hc : units.combined with
  | some _ => rfl
  | none => rw [hc] at h; cases h

theorem identity_setCarrier (hu : units.carriers = [u]) (hn : u'.identity = u.identity) :
    (setCarrier units u').units.map identity = units.units.map identity := by
  cases hc : units.combined with
  | some _ => rw [units_setCarrier (by rw [hc]; rfl)]
  | none =>
    rw [PipelineUnits.carriers_of_combined_eq_none hc] at hu
    rw [setCarrier, hc, hu, List.map_singleton, List.map_singleton, hn]

/-- The carrier is the last unit of its pipeline. -/
theorem exists_all_setCarrier (u' : CompilationUnit) (hu : units.carriers = [u]) :
    ∃ before, units.all = before ++ [u] ∧ (setCarrier units u').all = before ++ [u'] := by
  cases hc : units.combined with
  | some combined =>
    rw [PipelineUnits.carriers, hc, List.singleton_inj] at hu
    subst hu
    refine ⟨units.units, PipelineUnits.all_of_combined_eq_some hc, ?_⟩
    rw [setCarrier, hc]
    rfl
  | none =>
    rw [PipelineUnits.carriers_of_combined_eq_none hc] at hu
    refine ⟨[], by rw [PipelineUnits.all_of_combined_eq_none hc, hu]; rfl, ?_⟩
    rw [setCarrier, hc]
    rfl

end Carrier

end AssemblyContext

namespace Turn

open AssemblyContext CompilationUnit

variable {settings : BuildSettings} {p : Pipeline} {s : Stage} {front : List Path}
  {plan : BuildPlan} {acts : List Action} {a : Action} {u : CompilationUnit} {q : Path}

/-- Units that are bound one by one take the turn of their pipeline. -/
theorem of_advances {units : List CompilationUnit} (hs : s ≠ .link)
    (hc : (plan.pipeline p).combined = none)
    (hf : (plan.pipeline p).units.map (·.nextInput) = front.map some)
    (h : Advances settings p s (plan.actions.stage s).length (plan.pipeline p).units acts units) :
    Turn settings p s front plan acts
      (plan.put p { plan.pipeline p with units := units } (plan.actions.extend s acts)) := by
  have hc' : PipelineUnits.combined { plan.pipeline p with units := units } = none := hc
  exact
    { row := ⟨by rw [h.map_inputs hf, Stage.reads_of_ne_link hs], h.kind, h.built⟩
      actions := rfl
      stages := plan.stages_put p _ _
      others := fun q hq => plan.pipeline_put_of_ne p _ _ hq
      owns := fun id => by
        rw [BuildPlan.Owns, BuildPlan.Owns, BuildPlan.pipeline_put_self,
          PipelineUnits.all_of_combined_eq_none hc, PipelineUnits.all_of_combined_eq_none hc']
        exact h.mem_actions_iff
      identity := by rw [BuildPlan.pipeline_put_self, h.map_identity]
      current := by
        rw [BuildPlan.pipeline_put_self, PipelineUnits.carriers_of_combined_eq_none hc',
          h.map_current]
      combined := by simp [hs]
      kept := by simp [hc]
      merged := fun h => absurd h hs }

/-- A new combined unit that reads all units takes the turn of its pipeline. -/
theorem of_merge (hc : (plan.pipeline p).combined = none) (hu : u.actions = [])
    (hm : (plan.pipeline p).units.mapM currentOutput = .ok front) (hne : front ≠ [])
    (hk : ∀ q ∈ front, ActionKind.dispatch p .link (Format.ofPath? q) = some a.kind)
    (hb : a.Built settings) (ha : a.binding.inputs = front) :
    Turn settings p .link front plan [a]
      (plan.put p
        { plan.pipeline p with
          combined := some (u.advance a ⟨.link, (plan.actions.stage .link).length⟩) }
        (plan.actions.extend .link [a])) where
  row :=
    { inputs := by rw [List.map_singleton, ha, Stage.reads_link hne]
      kind := fun a' h' q hq => by
        obtain rfl := List.mem_singleton.mp h'
        exact hk q (ha ▸ hq)
      built := fun a' h' => List.mem_singleton.mp h' ▸ hb }
  actions := rfl
  stages := plan.stages_put p _ _
  others := fun q hq => plan.pipeline_put_of_ne p _ _ hq
  owns := fun id => by
    obtain ⟨stage, index⟩ := id
    rw [BuildPlan.Owns, BuildPlan.Owns, BuildPlan.pipeline_put_self,
      PipelineUnits.all_of_combined_eq_none hc, PipelineUnits.all_of_combined_eq_some rfl,
      List.flatMap_append, List.mem_append, List.flatMap_singleton, actions_advance, hu,
      List.nil_append, List.length_singleton, List.mem_singleton, ActionId.mk.injEq]
    refine or_congr_right (and_congr_right fun _ => ?_)
    dsimp only
    omega
  identity := by rw [BuildPlan.pipeline_put_self]
  current := by rw [BuildPlan.pipeline_put_self]; rfl
  combined := by simp [hne]
  kept := fun _ => by rw [BuildPlan.pipeline_put_self]
  merged := fun _ => by rw [BuildPlan.pipeline_put_self, hm]

/-- The unit that carries a pipeline alone takes its turn. -/
theorem of_carrier (hs : s ≠ .link) (hu : (plan.pipeline p).carriers = [u])
    (hq : u.nextInput = some q) (ha : u.Handled settings p s a) :
    Turn settings p s [q] plan [a]
      (plan.put p
        (setCarrier (plan.pipeline p) (u.advance a ⟨s, (plan.actions.stage s).length⟩))
        (plan.actions.extend s [a])) where
  row :=
    { inputs := by
        rw [List.map_singleton, ha.inputs_eq hq, Stage.reads_of_ne_link hs, List.map_singleton]
      kind := fun a' h' q' hq' => by
        obtain rfl := List.mem_singleton.mp h'
        rw [ha.inputs_eq hq, List.mem_singleton] at hq'
        rw [← ha.kind, nextFormat, hq, hq']
        rfl
      built := fun a' h' => List.mem_singleton.mp h' ▸ ha.built }
  actions := rfl
  stages := plan.stages_put p _ _
  others := fun q hq => plan.pipeline_put_of_ne p _ _ hq
  owns := fun id => by
    obtain ⟨stage, index⟩ := id
    obtain ⟨before, hall, hall'⟩ :=
      exists_all_setCarrier (u.advance a ⟨s, (plan.actions.stage s).length⟩) hu
    rw [BuildPlan.Owns, BuildPlan.Owns, BuildPlan.pipeline_put_self, hall, hall',
      List.flatMap_append, List.flatMap_append, List.flatMap_singleton, List.flatMap_singleton,
      actions_advance, ← List.append_assoc, List.mem_append, List.mem_singleton,
      ActionId.mk.injEq, List.length_singleton]
    refine or_congr_right (and_congr_right fun _ => ?_)
    dsimp only
    omega
  identity := by
    rw [BuildPlan.pipeline_put_self]
    exact identity_setCarrier hu rfl
  current := by rw [BuildPlan.pipeline_put_self, carriers_setCarrier]; rfl
  combined := by simp [hs, combined_setCarrier]
  kept := fun h => by
    rw [BuildPlan.pipeline_put_self, combined_setCarrier] at h
    rw [BuildPlan.pipeline_put_self, units_setCarrier h]
  merged := fun h => absurd h hs

end Turn

end CompilerDriver
