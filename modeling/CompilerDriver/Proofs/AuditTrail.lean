import CompilerDriver.Proofs.AssemblySteps

/-!
# The audit trail of a plan

A unit keeps its artifacts and the places of the actions that wrote them. For
every assembler these records agree with the lists of actions: each unit records
as many actions as it has artifacts, its k-th action turned the artifact before
into the k-th one, and every action of the plan is recorded in one place.
-/
namespace CompilerDriver

namespace CompilationUnit

/-- The artifact at a position of the history was made of this one: the artifact before it, or
the source at the start. -/
def artifactBefore (u : CompilationUnit) : Nat → Option Path
  | 0 => u.source
  | k + 1 => u.history[k]?

variable {u : CompilationUnit} {a : Action} {id : ActionId} {k : Nat}

theorem nextInput_eq_artifactBefore (h : u.current = u.history.getLast?) :
    u.nextInput = u.artifactBefore u.history.length := by
  rw [nextInput, h]
  rcases u.history.eq_nil_or_concat' with hn | ⟨before, q, hq⟩
  · rw [hn]
    rfl
  · rw [hq, List.getLast?_concat, List.length_append, List.length_singleton, artifactBefore, hq,
      List.getElem?_concat_length]
    rfl

@[simp] theorem history_advance : (u.advance a id).history = u.history ++ [a.binding.output] := rfl

/-- A unit that moves on keeps the artifacts it has. -/
theorem artifactBefore_advance (hk : k ≤ u.history.length) :
    (u.advance a id).artifactBefore k = u.artifactBefore k := by
  cases k with
  | zero => rfl
  | succ k =>
    rw [artifactBefore, artifactBefore, history_advance]
    exact List.getElem?_append_left hk

end CompilationUnit

/-- The action at a place wrote the k-th artifact of the unit, and unless its kind merges, made
it of the artifact before. -/
def CompilationUnit.MadeBy (u : CompilationUnit) (k : Nat) (a : Action) : Prop :=
  u.history[k]? = some a.binding.output ∧ a.Spelled ∧
    (a.kind.arity = .single → a.binding.inputs.map some = [u.artifactBefore k])

/-- What a unit records of its actions agrees with the actions of a plan. -/
structure CompilationUnit.Audited (actions : StageActions) (u : CompilationUnit) : Prop where
  length : u.actions.length = u.history.length
  current : u.current = u.history.getLast?
  entry : ∀ k id, u.actions[k]? = some id → ∃ a, actions.get? id = some a ∧ u.MadeBy k a

namespace StageActions

variable (t : StageActions) (s : Stage) (a : Action)

theorem get?_extend_singleton :
    (t.extend s [a]).get? ⟨s, (t.stage s).length⟩ = some a := t.get?_push s a

theorem get?_extend_of_eq_some {id : ActionId} {b : Action} (h : t.get? id = some b) :
    (t.extend s [a]).get? id = some b := by
  have hsome : (t.get? id).isSome = true := by rw [h]; rfl
  rw [← h]
  exact t.get?_push_of_isSome s a hsome

/-- A new action at the end of a stage takes one more place. -/
theorem ids_extend_perm :
    (t.extend s [a]).ids.Perm (⟨s, (t.stage s).length⟩ :: t.ids) := by
  have hnew : (⟨s, (t.stage s).length⟩ : ActionId) ∉ t.ids := by
    rw [mem_ids_iff, isSome_get?_iff]
    exact Nat.lt_irrefl _
  rw [List.perm_ext_iff_of_nodup (nodup_ids _) (List.nodup_cons.mpr ⟨hnew, t.nodup_ids⟩)]
  rintro ⟨r, i⟩
  rw [mem_ids_iff, isSome_get?_iff, List.mem_cons, mem_ids_iff, isSome_get?_iff, ActionId.mk.injEq]
  dsimp only
  by_cases hr : r = s
  · subst hr
    rw [stage_extend_self, List.length_append, List.length_singleton]
    simp only [true_and]
    omega
  · rw [stage_extend_of_ne _ _ hr]
    simp only [hr, false_and, false_or]

end StageActions

namespace CompilationUnit

variable {u : CompilationUnit} {a : Action} {s : Stage} {t : StageActions}

theorem audited_of_nil (ha : u.actions = []) (hh : u.history = []) (hc : u.current = none) :
    u.Audited t where
  length := by rw [ha, hh]; rfl
  current := by rw [hc, hh]; rfl
  entry := by
    intro k id hk
    rw [ha] at hk
    cases hk

theorem Audited.extend (h : u.Audited t) (s : Stage) (a : Action) :
    u.Audited (t.extend s [a]) where
  length := h.length
  current := h.current
  entry := by
    intro k id hk
    obtain ⟨b, hb, hmade⟩ := h.entry k id hk
    exact ⟨b, t.get?_extend_of_eq_some s a hb, hmade⟩

/-- A unit that moves on records the new action after the others. -/
theorem Audited.advance (h : u.Audited t) (ha : u.Fits a) :
    (u.advance a ⟨s, (t.stage s).length⟩).Audited (t.extend s [a]) where
  length := by
    rw [actions_advance, history_advance, List.length_append, List.length_append, h.length]
    rfl
  current := by
    rw [history_advance, List.getLast?_concat]
    rfl
  entry := by
    intro k id hk
    rw [actions_advance] at hk
    by_cases hold : k < u.actions.length
    · rw [List.getElem?_append_left hold] at hk
      obtain ⟨b, hb, hout, hspelled, hin⟩ := h.entry k id hk
      have hlt : k < u.history.length := h.length ▸ hold
      refine ⟨b, t.get?_extend_of_eq_some s a hb, ?_, hspelled, fun hs => ?_⟩
      · rw [history_advance, List.getElem?_append_left hlt, hout]
      · rw [artifactBefore_advance (Nat.le_of_lt hlt), hin hs]
    · obtain ⟨rfl, rfl⟩ : k = u.actions.length ∧ id = ⟨s, (t.stage s).length⟩ := by
        have hlt := (List.getElem?_eq_some_iff.mp hk).1
        rw [List.length_append, List.length_singleton] at hlt
        obtain rfl : k = u.actions.length := by omega
        rw [List.getElem?_concat_length] at hk
        exact ⟨rfl, (Option.some.inj hk).symm⟩
      refine ⟨a, t.get?_extend_singleton s a, ?_, ha.spelled, fun hs => ?_⟩
      · rw [h.length, history_advance, List.getElem?_concat_length]
      · rw [h.length, artifactBefore_advance (Nat.le_refl _),
          ← nextInput_eq_artifactBefore h.current, ha.inputs hs]

end CompilationUnit

namespace BuildPlan

/-- All units of a plan, those of the device first. -/
def members (plan : BuildPlan) : List CompilationUnit := plan.device.all ++ plan.host.all

/-- The records of all units agree with the actions of the plan, and the actions are listed under
active stages alone. -/
structure Audited (stages : StagePlan) (plan : BuildPlan) : Prop where
  units : ∀ u ∈ plan.members, u.Audited plan.actions
  recorded : (plan.members.flatMap (·.actions)).Perm plan.actions.ids
  inactive : ∀ s, stages.isActive s = false → plan.actions.stage s = []

variable {stages : StagePlan} {plan plan' : BuildPlan}

theorem exists_members_put (plan : BuildPlan) (p : Pipeline) : ∃ before after,
    plan.members = before ++ (plan.pipeline p).all ++ after ∧
      ∀ units actions, (plan.put p units actions).members = before ++ units.all ++ after := by
  cases p with
  | device => exact ⟨[], plan.host.all, rfl, fun _ _ => rfl⟩
  | host =>
    exact ⟨plan.device.all, [], (List.append_nil _).symm, fun _ _ => (List.append_nil _).symm⟩

end BuildPlan

theorem PipelineUnits.Replaces.exists_all {u u' : CompilationUnit} {units units' : PipelineUnits}
    (h : Replaces u u' units units') :
    ∃ before after, units.all = before ++ u :: after ∧ units'.all = before ++ u' :: after := by
  cases h with
  | unit before after combined =>
    exact ⟨before, after ++ combined.toList, List.append_assoc .., List.append_assoc ..⟩
  | combined units => exact ⟨units, [], rfl, rfl⟩

namespace BuildPlan

variable {stages : StagePlan} {plan plan' : BuildPlan}

/-- What a single change does to the list of all units. -/
theorem Step.members (h : Step stages plan plan') :
    (∃ before after output, plan.members = before ++ after ∧
      plan'.members = before ++ .combined output :: after ∧ plan'.actions = plan.actions) ∨
    ∃ before u after s a, plan.members = before ++ u :: after ∧ stages.isActive s = true ∧
      u.Fits a ∧
      plan'.members = before ++ u.advance a ⟨s, (plan.actions.stage s).length⟩ :: after ∧
      plan'.actions = plan.actions.extend s [a] := by
  cases h with
  | @combine p output hc =>
    obtain ⟨first, last, hm, hput⟩ := plan.exists_members_put p
    refine Or.inl ⟨first ++ (plan.pipeline p).units, last, output, ?_, ?_, rfl⟩
    · rw [hm, PipelineUnits.all_of_combined_eq_none hc]
    · rw [hput, PipelineUnits.all_of_combined_eq_some rfl]
      simp only [List.append_assoc, List.singleton_append]
  | @advance p s u a units hs ha hreplaces =>
    obtain ⟨first, last, hm, hput⟩ := plan.exists_members_put p
    obtain ⟨before, after, hall, hall'⟩ := hreplaces.exists_all
    refine Or.inr ⟨first ++ before, u, after ++ last, s, a, ?_, hs, ha, ?_, rfl⟩
    · rw [hm, hall]
      simp only [List.append_assoc, List.cons_append]
    · rw [hput, hall']
      simp only [List.append_assoc, List.cons_append]

theorem audited_initial (stages : StagePlan) (c : Config) :
    Audited stages (.initial stages c) := by
  have hunit : ∀ u ∈ (initial stages c).members, ∃ source, u = .ofSource source := by
    intro u hu
    unfold members at hu
    rw [initial, PipelineUnits.ofInputs, PipelineUnits.ofInputs, PipelineUnits.all,
      PipelineUnits.all] at hu
    simp only [Option.toList_none, List.append_nil, List.mem_append, List.mem_map] at hu
    rcases hu with ⟨q, -, rfl⟩ | ⟨q, -, rfl⟩ <;> exact ⟨q, rfl⟩
  have hrecorded : (initial stages c).members.flatMap (·.actions) = [] := by
    rw [List.flatMap_eq_nil_iff]
    intro u hu
    obtain ⟨q, rfl⟩ := hunit u hu
    rfl
  refine ⟨fun u hu => ?_, ?_, fun s _ => PerStage.get_replicate [] s⟩
  · obtain ⟨q, rfl⟩ := hunit u hu
    exact CompilationUnit.audited_of_nil rfl rfl rfl
  · rw [hrecorded]
    exact .refl _

theorem Audited.step (h : Audited stages plan) (hs : Step stages plan plan') :
    Audited stages plan' := by
  obtain ⟨before, after, output, hm, hm', ha⟩ | ⟨before, u, after, s, a, hm, hs, ha, hm', hacts⟩ :=
    hs.members
  · have hunits := h.units
    have hrecorded := h.recorded
    rw [hm] at hunits hrecorded
    refine ⟨fun v hv => ?_, ?_, ha ▸ h.inactive⟩
    · rw [ha]
      rw [hm', List.mem_append, List.mem_cons] at hv
      rcases hv with hv | rfl | hv
      · exact hunits v (List.mem_append_left _ hv)
      · exact CompilationUnit.audited_of_nil rfl rfl rfl
      · exact hunits v (List.mem_append_right _ hv)
    · rw [ha, hm']
      simpa only [List.flatMap_append, List.flatMap_cons, CompilationUnit.combined,
        List.nil_append] using hrecorded
  · have hunits := h.units
    have hrecorded := h.recorded
    rw [hm] at hunits hrecorded
    refine ⟨fun v hv => ?_, ?_, fun r hr => ?_⟩
    · rw [hacts]
      rw [hm', List.mem_append, List.mem_cons] at hv
      rcases hv with hv | rfl | hv
      · exact (hunits v (List.mem_append_left _ hv)).extend s a
      · exact (hunits u (List.mem_append_right _ List.mem_cons_self)).advance ha
      · exact (hunits v (List.mem_append_right _ (List.mem_cons_of_mem _ hv))).extend s a
    · have hnew := plan.actions.ids_extend_perm s a
      rw [List.flatMap_append, List.flatMap_cons, ← List.append_assoc] at hrecorded
      rw [hacts, hm', List.flatMap_append, List.flatMap_cons, CompilationUnit.actions_advance,
        ← List.append_assoc, ← List.append_assoc, List.append_assoc _ [_], List.singleton_append]
      exact List.perm_middle.trans ((hrecorded.cons _).trans hnew.symm)
    · have hne : r ≠ s := by
        rintro rfl
        rw [hs] at hr
        cases hr
      rw [hacts, StageActions.stage_extend_of_ne _ _ hne, h.inactive r hr]

/-- Every plan that is reached from the initial one has records that agree with its actions. -/
theorem audited_of_reaches {c : Config} (h : Reaches stages (.initial stages c) plan) :
    Audited stages plan := by
  induction h with
  | refl => exact audited_initial stages c
  | tail _ hs ih => exact ih.step hs

/-- The units of a pipeline stand for its sources, whatever becomes of them. -/
theorem Step.map_source (h : Step stages plan plan') (p : Pipeline) :
    (plan'.pipeline p).units.map (·.source) = (plan.pipeline p).units.map (·.source) := by
  cases h with
  | @combine r output hc =>
    by_cases hp : p = r
    · subst hp
      rw [pipeline_put_self]
    · rw [pipeline_put_of_ne _ _ _ _ hp]
  | @advance r s u a units hs ha hreplaces =>
    by_cases hp : p = r
    · subst hp
      rw [pipeline_put_self]
      generalize plan.pipeline p = units₀ at hreplaces ⊢
      cases hreplaces with
      | unit before after combined => simp only [List.map_append, List.map_cons]; rfl
      | combined units => rfl
    · rw [pipeline_put_of_ne _ _ _ _ hp]

theorem map_source_of_reaches {c : Config} (h : Reaches stages (.initial stages c) plan)
    (p : Pipeline) :
    (plan.pipeline p).units.map (·.source) = (c.pipeline p).inputs.map some := by
  induction h with
  | refl =>
    rw [AssemblyContext.pipeline_initial, PipelineUnits.ofInputs, List.map_map]
    rfl
  | tail _ hs ih => rw [hs.map_source, ih]

/-- Together the units have the sources that are configured, and combined units have none. -/
theorem Step.filterMap_source (h : Step stages plan plan') :
    plan'.members.filterMap (·.source) = plan.members.filterMap (·.source) := by
  obtain ⟨before, after, output, hm, hm', -⟩ | ⟨before, u, after, s, a, hm, -, -, hm', -⟩ :=
    h.members
  · rw [hm, hm', List.filterMap_append, List.filterMap_append, List.filterMap_cons]
    rfl
  · rw [hm, hm', List.filterMap_append, List.filterMap_append, List.filterMap_cons,
      List.filterMap_cons]
    rfl

theorem filterMap_source_of_reaches {c : Config} (h : Reaches stages (.initial stages c) plan) :
    plan.members.filterMap (·.source) = c.sources.map (·.2) := by
  induction h with
  | refl =>
    unfold members
    rw [initial, PipelineUnits.ofInputs, PipelineUnits.ofInputs, PipelineUnits.all,
      PipelineUnits.all, Config.sources]
    simp [List.filterMap_map, Function.comp_def, CompilationUnit.ofSource]
  | tail _ hs ih => rw [hs.filterMap_source, ih]

/-- The unit at a place of the list of all units has the action as its k-th one. -/
def Records (plan : BuildPlan) (i k : Nat) (id : ActionId) : Prop :=
  ∃ u, plan.members[i]? = some u ∧ u.actions[k]? = some id

end BuildPlan

/-- What lies in one of several lists without repetition has one place there. -/
theorem existsUnique_of_nodup_flatMap {α β : Type} {xs : List α} {f : α → List β} {b : β}
    (hn : (xs.flatMap f).Nodup) (hb : b ∈ xs.flatMap f) :
    ∃! place : Nat × Nat, ∃ x, xs[place.1]? = some x ∧ (f x)[place.2]? = some b := by
  obtain ⟨hinner, houter⟩ := List.nodup_flatMap.mp hn
  obtain ⟨x, hx, hbx⟩ := List.mem_flatMap.mp hb
  obtain ⟨i, hi⟩ := List.mem_iff_getElem?.mp hx
  obtain ⟨k, hk⟩ := List.mem_iff_getElem?.mp hbx
  refine ⟨(i, k), ⟨x, hi, hk⟩, ?_⟩
  rintro ⟨j, l⟩ ⟨y, hj, hl⟩
  dsimp only at hj hl
  have hbound := (List.getElem?_eq_some_iff.mp hi).1
  have hbound' := (List.getElem?_eq_some_iff.mp hj).1
  obtain rfl : xs[i] = x := (List.getElem?_eq_some_iff.mp hi).2
  obtain rfl : xs[j] = y := (List.getElem?_eq_some_iff.mp hj).2
  have hmem := List.mem_of_getElem? hk
  have hmem' := List.mem_of_getElem? hl
  rw [List.pairwise_iff_getElem] at houter
  -- Two of the lists have nothing in common, so the place among them is the same.
  obtain hlt | rfl | hlt := Nat.lt_trichotomy i j
  · exact absurd hmem' (houter i j hbound hbound' hlt hmem)
  · have hlength := (List.getElem?_eq_some_iff.mp hk).1
    rw [(List.getElem?_inj hlength (hinner _ hx)).mp (hk.trans hl.symm)]
  · exact absurd hmem (houter j i hbound' hbound hlt hmem')

/-- The records of the units and the lists of actions of a plan tell the same. -/
structure AuditTrail (stages : StagePlan) (c : Config) (plan : BuildPlan) : Prop where
  sources : ∀ p, (plan.pipeline p).units.map (·.source) = (c.pipeline p).inputs.map some
  length : ∀ u ∈ plan.members, u.actions.length = u.history.length
  /-- A place that a unit records is one in the list of an active stage. -/
  resolves : ∀ u ∈ plan.members, ∀ id ∈ u.actions, stages.isActive id.stage = true ∧
    ∃ a ∈ plan.actions.stage id.stage, plan.actions.get? id = some a
  /-- Every action is recorded by one unit, at one position. -/
  recorded : ∀ id, (plan.actions.get? id).isSome = true →
    ∃! place : Nat × Nat, plan.Records place.1 place.2 id
  spelled : ∀ id a, plan.actions.get? id = some a → a.Spelled
  writes : ∀ u ∈ plan.members, ∀ (k : Nat) (id : ActionId) (a : Action), u.actions[k]? = some id →
    plan.actions.get? id = some a → u.history[k]? = some a.binding.output
  reads : ∀ u ∈ plan.members, ∀ (k : Nat) (id : ActionId) (a : Action), u.actions[k]? = some id →
    plan.actions.get? id = some a → a.kind ≠ .deviceLink → a.kind ≠ .hostLink →
    ∃ q, u.artifactBefore k = some q ∧ a.binding.inputs = [q]
  inactive : ∀ s, stages.isActive s = false → plan.actions.stage s = []

theorem ActionKind.arity_eq_single {kind : ActionKind} (hd : kind ≠ .deviceLink)
    (hh : kind ≠ .hostLink) : kind.arity = .single := by
  cases kind
  case deviceLink => exact absurd rfl hd
  case hostLink => exact absurd rfl hh
  all_goals rfl

namespace BuildPlan.Audited

variable {stages : StagePlan} {plan : BuildPlan} {id : ActionId} {u : CompilationUnit}

theorem mem_recorded_iff (h : Audited stages plan) :
    id ∈ plan.members.flatMap (·.actions) ↔ (plan.actions.get? id).isSome = true := by
  rw [h.recorded.mem_iff, StageActions.mem_ids_iff]

theorem isActive (h : Audited stages plan) (ha : (plan.actions.get? id).isSome = true) :
    stages.isActive id.stage = true := by
  by_contra hs
  rw [Bool.not_eq_true] at hs
  rw [StageActions.isSome_get?_iff, h.inactive _ hs] at ha
  exact Nat.not_lt_zero _ ha

theorem existsUnique_records (h : Audited stages plan)
    (ha : (plan.actions.get? id).isSome = true) :
    ∃! place : Nat × Nat, plan.Records place.1 place.2 id := by
  have hn : (plan.members.flatMap (·.actions)).Nodup :=
    h.recorded.nodup_iff.mpr plan.actions.nodup_ids
  exact existsUnique_of_nodup_flatMap hn (h.mem_recorded_iff.mpr ha)

/-- The action at a recorded place is the one that the entry tells of. -/
theorem madeBy (h : Audited stages plan) (hu : u ∈ plan.members) {k : Nat} {a : Action}
    (hk : u.actions[k]? = some id) (ha : plan.actions.get? id = some a) : u.MadeBy k a := by
  obtain ⟨b, hb, hmade⟩ := (h.units u hu).entry k id hk
  rw [ha] at hb
  obtain rfl := Option.some.inj hb
  exact hmade

/-- Every action has been made for an entry of some unit. -/
theorem exists_madeBy (h : Audited stages plan) {a : Action} (ha : plan.actions.get? id = some a) :
    ∃ u ∈ plan.members, ∃ k, u.actions[k]? = some id ∧ u.MadeBy k a := by
  have hsome : (plan.actions.get? id).isSome = true := by rw [ha]; rfl
  obtain ⟨u, hu, hid⟩ := List.mem_flatMap.mp (h.mem_recorded_iff.mpr hsome)
  obtain ⟨k, hk⟩ := List.mem_iff_getElem?.mp hid
  exact ⟨u, hu, k, hk, h.madeBy hu hk ha⟩

end BuildPlan.Audited

/-- Whatever steps an assembler has, in whatever order and number, and whatever stages are active:
if it gives a plan, the records of the units are a complete account of the actions. -/
theorem auditTrail_of_assemble {a : Assembler} {settings : BuildSettings} {stages : StagePlan}
    {plan : BuildPlan} {w w' : Workspace}
    (h : (a.assemble settings stages).run w = (.ok plan, w')) :
    AuditTrail stages settings.config plan := by
  have hreaches := a.reaches_of_assemble h
  have haudited := BuildPlan.audited_of_reaches hreaches
  refine
    { sources := BuildPlan.map_source_of_reaches hreaches
      length := fun u hu => (haudited.units u hu).length
      resolves := ?_
      recorded := fun id => haudited.existsUnique_records
      spelled := ?_
      writes := fun u hu k id a hk ha => (haudited.madeBy hu hk ha).1
      reads := ?_
      inactive := haudited.inactive }
  · intro u hu id hid
    have hsome := haudited.mem_recorded_iff.mp (List.mem_flatMap.mpr ⟨u, hu, hid⟩)
    obtain ⟨a, ha⟩ := Option.isSome_iff_exists.mp hsome
    exact ⟨haudited.isActive hsome, a, List.mem_of_getElem? ha, ha⟩
  · intro id a ha
    obtain ⟨u, hu, k, -, hmade⟩ := haudited.exists_madeBy ha
    exact hmade.2.1
  · intro u hu k id a hk ha hd hh
    have hin := (haudited.madeBy hu hk ha).2.2 (ActionKind.arity_eq_single hd hh)
    obtain ⟨q, hq, hbefore⟩ := List.map_eq_singleton_iff.mp hin
    exact ⟨q, hbefore.symm, hq⟩

namespace Sample

/-- An assembler that compiles twice and links twice, whatever the order of its steps. -/
def repeated : Assembler := .ofSteps [.link, .perUnit .compile, .link, .perUnit .compile]

theorem exists_repeated_eq : ∃ plan w,
    (repeated.assemble ⟨config, tools⟩ stages).run workspace = (.ok plan, w) ∧
      plan.actions.size = 10 := by
  have h : ((repeated.assemble ⟨config, tools⟩ stages).run workspace).1.toOption.map
      (·.actions.size) = some 10 := by decide +kernel
  rcases hr : (repeated.assemble ⟨config, tools⟩ stages).run workspace with ⟨_ | plan, w⟩
  · rw [hr] at h
    cases h
  · rw [hr] at h
    exact ⟨plan, w, rfl, Option.some.inj h⟩

end Sample

theorem auditTrail_of_repeated :
    ∃ plan, AuditTrail Sample.stages Sample.config plan ∧ plan.actions.size = 10 := by
  obtain ⟨plan, w, hrun, hsize⟩ := Sample.exists_repeated_eq
  exact ⟨plan, auditTrail_of_assemble hrun, hsize⟩

end CompilerDriver
