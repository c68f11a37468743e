import CompilerDriver.Proofs.AuditTrail
import Mathlib.Data.List.Pairwise
import Mathlib.Data.List.Perm.Basic

/-!
# Which artifacts can share a path

The artifacts that the units of a plan go through are the temporaries and the
configured outputs. Planning compares no paths, so an output may well be an
input, or the output of the other pipeline as well. That is the only way in
which a path is written twice: where the configured outputs are apart from
each other and from the inputs, every artifact has one writer, and link is the
only action that reads what another unit has produced. Paths are compared byte
for byte here, and two of them may still lead to one file.
-/
namespace CompilerDriver

/-- The configured outputs of both pipelines. -/
def Config.outputs (c : Config) : List Path := c.device.output.toList ++ c.host.output.toList

/-- The path is an input of one of the pipelines. -/
def Config.HasInput (c : Config) (q : Path) : Prop := ∃ p, q ∈ (c.pipeline p).inputs

/-- Every artifact that a unit of the plan has been assigned. -/
def BuildPlan.artifacts (plan : BuildPlan) : List Path := plan.members.flatMap (·.history)

/-- No path of the plan is written twice, and none is read that another unit has produced, except
by the link actions. -/
structure SingleUse (c : Config) (plan : BuildPlan) : Prop where
  artifacts : plan.artifacts.Nodup
  writer : ∀ q id id', plan.Writes id q → plan.Writes id' q → id = id'
  sources : ∀ id q, plan.Writes id q → ¬ c.HasInput q
  reads : ∀ u ∈ plan.members, ∀ id ∈ u.actions, ∀ a, plan.actions.get? id = some a →
    a.kind ≠ .deviceLink → a.kind ≠ .hostLink → ∀ q ∈ a.binding.inputs,
    ∀ v ∈ plan.members, q ∈ v.history → v = u
  /-- What a link action reads has been produced by one unit of its own pipeline, and by no other
  unit. -/
  link : ∀ p id a, plan.Owns p id → plan.actions.get? id = some a →
    (a.kind = .deviceLink ∨ a.kind = .hostLink) → ∀ q ∈ a.binding.inputs,
    ∃ u ∈ (plan.pipeline p).units, q ∈ u.history ∧ ∀ v ∈ plan.members, q ∈ v.history → v = u

/-- The artifacts of a plan with these temporaries, by the bytes of their paths. -/
structure ArtifactPaths (c : Config) (plan : BuildPlan) (temporaries : List Path) : Prop where
  /-- What an action reads and writes is what its command names. -/
  spelled : ∀ id a, plan.actions.get? id = some a → a.Spelled
  owner : ∀ id, (plan.actions.get? id).isSome = true → ∃! p, plan.Owns p id
  perm : plan.artifacts.Perm (temporaries ++ c.outputs)
  nodup_iff : plan.artifacts.Nodup ↔ c.outputs.Nodup
  mem_iff : ∀ q, c.HasInput q → (q ∈ plan.artifacts ↔ q ∈ c.outputs)
  single : c.outputs.Nodup → (∀ q ∈ c.outputs, ¬ c.HasInput q) → SingleUse c plan

/-- The artifacts of a unit are what its actions write. -/
theorem CompilationUnit.Audited.map_history {u : CompilationUnit} {t : StageActions}
    (h : u.Audited t) :
    u.history.map some = u.actions.map fun id => (t.get? id).map (·.binding.output) := by
  refine List.ext_getElem? fun k => ?_
  rw [List.getElem?_map, List.getElem?_map]
  cases hk : u.actions[k]? with
  | none =>
    have hlength : u.history.length ≤ k := h.length ▸ List.getElem?_eq_none_iff.mp hk
    rw [List.getElem?_eq_none hlength]
    rfl
  | some id =>
    obtain ⟨a, ha, hout, -⟩ := h.entry k id hk
    rw [hout, Option.map_some, Option.map_some, ha]
    rfl

theorem CompilationUnit.mem_history_of_current {u : CompilationUnit} {t : StageActions} {q : Path}
    (h : u.Audited t) (hq : u.current = some q) : q ∈ u.history := by
  rw [h.current] at hq
  exact List.mem_of_getLast? hq

theorem exists_current_of_mapM {units : List CompilationUnit} {front : List Path} {q : Path}
    (h : units.mapM CompilationUnit.currentOutput = .ok front) (hq : q ∈ front) :
    ∃ u ∈ units, u.current = some q := by
  have hm : some q ∈ units.map (·.current) := by
    rw [AssemblyContext.map_current_of_mapM h]
    exact List.mem_map_of_mem hq
  exact List.mem_map.mp hm

/-- Lists without a common element tell by their elements where these come from. -/
theorem eq_of_nodup_flatMap {α β : Type} {xs : List α} {f : α → List β} {x y : α} {b : β}
    (hn : (xs.flatMap f).Nodup) (hx : x ∈ xs) (hy : y ∈ xs) (hbx : b ∈ f x) (hby : b ∈ f y) :
    x = y := by
  by_contra hne
  have hsymm : Std.Symm (Function.onFun List.Disjoint f) := ⟨fun _ _ h _ ha hb => h hb ha⟩
  have hdisjoint : (f x).Disjoint (f y) := (List.nodup_flatMap.mp hn).2.forall hx hy hne
  exact hdisjoint hbx hby

namespace BuildPlan.Audited

variable {stages : StagePlan} {plan : BuildPlan}

/-- The artifacts of the units are what the actions of the plan write. -/
theorem artifacts_perm (h : Audited stages plan) :
    plan.artifacts.Perm (plan.actions.toList.map (·.binding.output)) := by
  have hunits : plan.artifacts.map some = (plan.members.flatMap (·.actions)).map
      fun id => (plan.actions.get? id).map (·.binding.output) := by
    rw [artifacts, List.map_flatMap, List.map_flatMap]
    exact List.flatMap_congr fun u hu => (h.units u hu).map_history
  have hids : plan.actions.ids.map (fun id => (plan.actions.get? id).map (·.binding.output)) =
      (plan.actions.toList.map (·.binding.output)).map some := by
    have hget := congrArg (List.map (Option.map (·.binding.output))) plan.actions.map_get?_ids
    rw [List.map_map, List.map_map] at hget
    rw [List.map_map]
    exact hget
  have hperm := h.recorded.map fun id => (plan.actions.get? id).map (·.binding.output)
  rw [← hunits, hids] at hperm
  exact (List.map_perm_map_iff fun _ _ => Option.some.inj).mp hperm

end BuildPlan.Audited

namespace Assembled

variable {ctx : AssemblyContext} {plan : BuildPlan} {paths : List Path} {before : List Round}
  {final : Round} {p : Pipeline} {id : ActionId} {a : Action}

/-- The actions write the paths drawn and then the configured outputs. -/
theorem map_output (h : Assembled ctx plan paths before final) :
    plan.actions.toList.map (·.binding.output) = paths ++ ctx.config.outputs := by
  rw [h.toList_eq, List.map_append, ← h.paths_eq, Round.map_output_actions, h.outputs_final,
    h.outputs_final]
  rfl

/-- A link action reads the latest outputs of the units of its pipeline. -/
theorem mapM_of_merge (h : Assembled ctx plan paths before final) (ho : plan.Owns p id)
    (ha : plan.actions.get? id = some a) (hk : a.kind.arity = .merge) :
    (plan.pipeline p).units.mapM CompilationUnit.currentOutput = .ok a.binding.inputs := by
  obtain ⟨r, hr, -, hrow⟩ := h.exists_mem_row ho ha
  obtain ⟨pre, post, hsplit⟩ := List.append_of_mem hr
  have hlink := (h.rounds.row hsplit p).stage_eq_link hrow hk
  exact h.rounds.inputs_of_link hr hlink hrow

end Assembled

theorem Config.hasInput_iff {c : Config} {q : Path} : c.HasInput q ↔ q ∈ c.sources.map (·.2) := by
  unfold HasInput
  simp only [List.mem_map, Prod.exists, exists_eq_right, Config.mem_sources_iff]

section SingleUse

variable {ctx : AssemblyContext} {plan : BuildPlan} {paths : List Path} {before : List Round}
  {final : Round}

/-- An artifact is written where it is made, and at no other place. -/
theorem BuildPlan.Audited.mem_artifacts (h : BuildPlan.Audited ctx.stages plan) {id : ActionId}
    {q : Path} (hq : plan.Writes id q) : q ∈ plan.artifacts := by
  obtain ⟨a, ha, rfl⟩ := hq
  obtain ⟨u, hu, k, -, hmade⟩ := h.exists_madeBy ha
  exact List.mem_flatMap.mpr ⟨u, hu, List.mem_of_getElem? hmade.1⟩

/-- Where the artifacts differ from each other and from the sources by their paths, each is used as
it should. -/
theorem Assembled.singleUse (h : Assembled ctx plan paths before final)
    (hp : BuildPlan.Reaches ctx.stages (.initial ctx.stages ctx.config) plan)
    (hn : plan.artifacts.Nodup) (hs : ∀ q ∈ plan.artifacts, ¬ ctx.config.HasInput q) :
    SingleUse ctx.config plan := by
  have haudited := BuildPlan.audited_of_reaches hp
  refine
    { artifacts := hn
      writer := ?_
      sources := fun id q hq => hs q (haudited.mem_artifacts hq)
      reads := ?_
      link := ?_ }
  · intro q id id' hq hq'
    have hwritten : q ∈ plan.actions.toList.map (·.binding.output) :=
      haudited.artifacts_perm.mem_iff.mp (haudited.mem_artifacts hq)
    have hcount : (plan.actions.toList.flatMap fun a => [a.binding.output]).count q = 1 := by
      rw [← List.map_eq_flatMap]
      exact List.count_eq_one_of_mem (haudited.artifacts_perm.nodup_iff.mp hn) hwritten
    obtain ⟨a, ha, rfl⟩ := hq
    obtain ⟨a', ha', ho⟩ := hq'
    exact (StageActions.existsUnique_of_count hcount).unique
      ⟨a, ha, List.mem_singleton_self _⟩ ⟨a', ha', ho ▸ List.mem_singleton_self _⟩
  · intro u hu id hid a ha hd hh q hq v hv hqv
    obtain ⟨k, hk⟩ := List.mem_iff_getElem?.mp hid
    have hin := (haudited.madeBy hu hk ha).2.2 (ActionKind.arity_eq_single hd hh)
    have hbefore : u.artifactBefore k = some q := by
      have hmem := List.mem_map_of_mem (f := some) hq
      rw [hin, List.mem_singleton] at hmem
      exact hmem.symm
    have hmade : q ∈ plan.artifacts := List.mem_flatMap.mpr ⟨v, hv, hqv⟩
    cases k with
    | zero =>
      -- The first action of a unit reads a source, which is nobody's artifact.
      have hsource : q ∈ plan.members.filterMap (·.source) :=
        List.mem_filterMap.mpr ⟨u, hu, hbefore⟩
      rw [BuildPlan.filterMap_source_of_reaches hp, ← Config.hasInput_iff] at hsource
      exact absurd hsource (hs q hmade)
    | succ k => exact eq_of_nodup_flatMap hn hv hu hqv (List.mem_of_getElem? hbefore)
  · intro p id a ho ha hk q hq
    have hmerge : a.kind.arity = .merge := by
      rcases hk with hk | hk
      · rw [hk]; rfl
      · rw [hk]; rfl
    obtain ⟨u, hu, hc⟩ := exists_current_of_mapM (h.mapM_of_merge ho ha hmerge) hq
    have hmember : u ∈ plan.members := by
      have hall : u ∈ (plan.pipeline p).all := List.mem_append_left _ hu
      cases p with
      | device => exact List.mem_append_left _ hall
      | host => exact List.mem_append_right _ hall
    have hqu : q ∈ u.history :=
      CompilationUnit.mem_history_of_current (haudited.units u hmember) hc
    exact ⟨u, hu, hqu, fun v hv hqv => eq_of_nodup_flatMap hn hv hmember hqv hqu⟩

end SingleUse

/-- If the library gives new names, a path can be written twice or reused only where the
configuration names it for two things. -/
theorem artifactPaths_of_assemble {c : Config} {tools : Toolchain} {stages : StagePlan}
    {plan : BuildPlan} {w w' : Workspace} {temporaries : List Path}
    (hr : StagePlan.resolve c = .ok stages)
    (ha : (Assembler.standard.assemble ⟨c, tools⟩ stages).run w = (.ok plan, w'))
    (hw : w'.arena.paths = w.arena.paths ++ temporaries) (hn : temporaries.Nodup)
    (hd : ∀ q ∈ temporaries, ∀ p, q ∉ (c.pipeline p).inputs ∧ (c.pipeline p).output ≠ some q) :
    ArtifactPaths c plan temporaries := by
  obtain ⟨-, paths, before, final, hpaths, h⟩ := AssemblyContext.assembled_of_run_eq_ok
    ⟨⟨c, tools⟩, stages⟩ (StagePlan.accepted_of_resolve hr) ha
  have htemporaries : temporaries = paths := by
    rw [(Workspace.allocateAll_ok hpaths).1, List.append_cancel_left_eq] at hw
    exact hw.symm
  subst htemporaries
  have hreaches := Assembler.standard.reaches_of_assemble ha
  have hperm : plan.artifacts.Perm (temporaries ++ c.outputs) := by
    have hwritten := (BuildPlan.audited_of_reaches hreaches).artifacts_perm
    rwa [h.map_output] at hwritten
  have houtputs : ∀ q ∈ temporaries, q ∉ c.outputs := by
    intro q hq ho
    rcases List.mem_append.mp ho with ho | ho
    · exact (hd q hq .device).2 (Option.mem_toList.mp ho)
    · exact (hd q hq .host).2 (Option.mem_toList.mp ho)
  have hnodup : plan.artifacts.Nodup ↔ c.outputs.Nodup := by
    rw [hperm.nodup_iff, List.nodup_append']
    exact ⟨fun h => h.2.1, fun h => ⟨hn, h, houtputs⟩⟩
  have hmem : ∀ q, c.HasInput q → (q ∈ plan.artifacts ↔ q ∈ c.outputs) := by
    rintro q ⟨p, hq⟩
    rw [hperm.mem_iff, List.mem_append]
    exact ⟨fun h => h.resolve_left fun ht => (hd q ht p).1 hq, Or.inr⟩
  refine ⟨fun id a hget => h.spelled hget, fun id => h.existsUnique_owner, hperm, hnodup, hmem,
    fun hone hapart => ?_⟩
  exact h.singleUse hreaches (hnodup.mpr hone) fun q hq hin => hapart q ((hmem q hin).mp hq) hin

theorem artifactPaths_of_sample :
    ∃ plan, ArtifactPaths Sample.config plan Sample.temporaries ∧
      SingleUse Sample.config plan := by
  obtain ⟨plan, hrun⟩ := Sample.exists_outcome_eq
  have hn : Sample.temporaries.Nodup := by decide +kernel
  have hd : ∀ q ∈ Sample.temporaries, ∀ p ∈ Pipeline.all,
      q ∉ (Sample.config.pipeline p).inputs ∧ (Sample.config.pipeline p).output ≠ some q := by
    decide +kernel
  have hw : Sample.outcome.2.arena.paths = Sample.workspace.arena.paths ++ Sample.temporaries :=
    (List.nil_append _).symm
  have h : ArtifactPaths Sample.config plan Sample.temporaries :=
    artifactPaths_of_assemble rfl hrun hw hn fun q hq p => hd q hq p p.mem_all
  have hone : Sample.config.outputs.Nodup := by decide +kernel
  have hapart : ∀ q ∈ Sample.config.outputs, ∀ p ∈ Pipeline.all,
      q ∉ (Sample.config.pipeline p).inputs := by decide +kernel
  exact ⟨plan, h, h.single hone fun q hq ⟨p, hp⟩ => hapart q hq p p.mem_all hp⟩

namespace Sample

/-- Both pipelines are to write the path that the host is to read. -/
def colliding : Config where
  device := { inputs := [.ofString "k.cl"], output := some (.ofString "main.ll") }
  host := { inputs := [.ofString "main.ll"], output := some (.ofString "main.ll") }
  stages := { onlyCompile := true }

/-- A configuration whose outputs are one path is accepted and assembled, and both pipelines write
over the host source. No temporary takes part. -/
theorem exists_collision : ∃ stages plan w, StagePlan.resolve colliding = .ok stages ∧
    (Assembler.standard.assemble ⟨colliding, tools⟩ stages).run workspace = (.ok plan, w) ∧
    w.arena.paths = [] ∧ ¬ plan.artifacts.Nodup ∧
    (∃ q ∈ plan.artifacts, colliding.HasInput q) ∧
    ∃ q id id', plan.Writes id q ∧ plan.Writes id' q ∧ id ≠ id' := by
  let outcome := (Assembler.standard.assemble ⟨colliding, tools⟩
    (StagePlan.ofOptions colliding.stages)).run workspace
  have hartifacts : outcome.1.toOption.map (·.artifacts) =
      some [.ofString "main.ll", .ofString "main.ll"] := by decide +kernel
  have hwrites (i : Nat) (hi : i ∈ [0, 1]) : ((outcome.1.toOption.bind
      (·.actions.get? ⟨.compile, i⟩)).map (·.binding.output)) = some (.ofString "main.ll") := by
    revert i
    decide +kernel
  have hpaths : outcome.2.arena.paths = [] := by decide +kernel
  obtain ⟨plan, w, ho, hplan⟩ := exists_eq_ok_of_map hartifacts
  rw [ho] at hwrites hpaths
  have hwritten (i : Nat) (hi : i ∈ [0, 1]) : plan.Writes ⟨.compile, i⟩ (.ofString "main.ll") :=
    Option.map_eq_some_iff.mp (hwrites i hi)
  have hinput : colliding.HasInput (.ofString "main.ll") := ⟨.host, List.mem_singleton_self _⟩
  refine ⟨_, plan, w, rfl, ho, hpaths, ?_, ⟨_, ?_, hinput⟩, _, ⟨.compile, 0⟩, ⟨.compile, 1⟩,
    hwritten 0 (by decide), hwritten 1 (by decide), by decide⟩
  · rw [hplan]
    simp
  · rw [hplan]
    simp

end Sample

end CompilerDriver
