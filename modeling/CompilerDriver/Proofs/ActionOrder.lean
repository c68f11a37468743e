import CompilerDriver.StageActions
import Mathlib.Data.List.Nodup

/-!
# The order of actions

Actions run stage by stage, and in each stage in the order of its list. Places
are compared in this order, and what occurs once among all actions belongs to
one place.
-/
namespace CompilerDriver

/-- The first place comes before the second one when the actions run. -/
def ActionId.Before (a b : ActionId) : Prop :=
  a.stage.index < b.stage.index ∨ a.stage = b.stage ∧ a.index < b.index

namespace StageActions

variable (t : StageActions)

/-- The places of a stage. -/
def idsAt (s : Stage) : List ActionId := (List.range (t.stage s).length).map (⟨s, ·⟩)

/-- The places of all actions in the order they run. -/
def ids : List ActionId := Stage.all.flatMap t.idsAt

theorem mem_idsAt_iff {s : Stage} {id : ActionId} :
    id ∈ t.idsAt s ↔ id.stage = s ∧ id.index < (t.stage s).length := by
  obtain ⟨stage, index⟩ := id
  simp only [idsAt, List.mem_map, List.mem_range, ActionId.mk.injEq]
  constructor
  · rintro ⟨i, hi, rfl, rfl⟩
    exact ⟨rfl, hi⟩
  · rintro ⟨rfl, hi⟩
    exact ⟨index, hi, rfl, rfl⟩

theorem isSome_get?_iff {id : ActionId} :
    (t.get? id).isSome = true ↔ id.index < (t.stage id.stage).length := by
  rw [get?, isSome_getElem?]

/-- The places are those where an action stands. -/
theorem mem_ids_iff {id : ActionId} : id ∈ t.ids ↔ (t.get? id).isSome = true := by
  rw [ids, List.mem_flatMap, isSome_get?_iff]
  constructor
  · rintro ⟨s, -, hs⟩
    obtain ⟨rfl, hi⟩ := t.mem_idsAt_iff.mp hs
    exact hi
  · exact fun hi => ⟨id.stage, Stage.mem_all _, t.mem_idsAt_iff.mpr ⟨rfl, hi⟩⟩

theorem map_get?_idsAt (s : Stage) : (t.idsAt s).map t.get? = (t.stage s).map some := by
  rw [idsAt, List.map_map]
  refine List.ext_getElem (by simp) fun i hi _ => ?_
  simp [get?]

/-- The actions in the order they run are those that stand at the places. -/
theorem map_get?_ids : t.ids.map t.get? = t.toList.map some := by
  rw [ids, toList, List.map_flatMap, List.map_flatMap]
  exact List.flatMap_congr fun s _ => t.map_get?_idsAt s

theorem pairwise_idsAt (s : Stage) : (t.idsAt s).Pairwise ActionId.Before := by
  rw [idsAt, List.pairwise_map]
  exact List.pairwise_lt_range.imp fun h => Or.inr ⟨rfl, h⟩

/-- The places stand in their order. -/
theorem pairwise_ids : t.ids.Pairwise ActionId.Before := by
  have hstages : Stage.all.Pairwise (·.index < ·.index) := by decide
  rw [ids, List.pairwise_flatMap]
  refine ⟨fun s _ => t.pairwise_idsAt s, hstages.imp fun h a ha b hb => ?_⟩
  rw [mem_idsAt_iff] at ha hb
  exact Or.inl (by rwa [ha.1, hb.1])

theorem nodup_ids : t.ids.Nodup := by
  refine t.pairwise_ids.imp ?_
  rintro id _ hb rfl
  rcases hb with hb | ⟨-, hb⟩ <;> omega

variable {t} {f : Action → List Path} {q : Path}

/-- What the action at a place contributes to a list over all actions. -/
def contribution (t : StageActions) (f : Action → List Path) (id : ActionId) : List Path :=
  (t.get? id).elim [] f

theorem mem_contribution_iff {id : ActionId} :
    q ∈ t.contribution f id ↔ ∃ a, t.get? id = some a ∧ q ∈ f a := by
  unfold contribution
  cases t.get? id <;> simp

theorem flatMap_contribution_ids : t.ids.flatMap (t.contribution f) = t.toList.flatMap f := by
  have h := congrArg (List.flatMap fun a? : Option Action => a?.elim [] f) t.map_get?_ids
  rw [List.flatMap_map, List.flatMap_map] at h
  exact h

/-- What occurs once in a list over all actions belongs to one of them. -/
theorem existsUnique_of_count (h : (t.toList.flatMap f).count q = 1) :
    ∃! id, ∃ a, t.get? id = some a ∧ q ∈ f a := by
  rw [← flatMap_contribution_ids] at h
  have hpos : 0 < (t.ids.flatMap (t.contribution f)).count q := by omega
  obtain ⟨id, hid, hq⟩ := List.mem_flatMap.mp (List.count_pos_iff.mp hpos)
  refine ⟨id, mem_contribution_iff.mp hq, ?_⟩
  rintro id' ⟨a', ha', hq'⟩
  have hid' : id' ∈ t.ids := t.mem_ids_iff.mpr (by rw [ha']; rfl)
  replace hq' : q ∈ t.contribution f id' := mem_contribution_iff.mpr ⟨a', ha', hq'⟩
  -- A second place would stand before or after the first one, and be counted as well.
  obtain ⟨first, second, hsplit⟩ := List.append_of_mem hid
  rw [hsplit, List.flatMap_append, List.flatMap_cons, List.count_append, List.count_append] at h
  have hone := List.count_pos_iff.mpr hq
  have hfirst : q ∉ first.flatMap (t.contribution f) := List.count_eq_zero.mp (by omega)
  have hsecond : q ∉ second.flatMap (t.contribution f) := List.count_eq_zero.mp (by omega)
  rw [hsplit, List.mem_append, List.mem_cons] at hid'
  obtain hm | rfl | hm := hid'
  · exact absurd (List.mem_flatMap.mpr ⟨id', hm, hq'⟩) hfirst
  · rfl
  · exact absurd (List.mem_flatMap.mpr ⟨id', hm, hq'⟩) hsecond

end StageActions

end CompilerDriver
