import CompilerDriver.Proofs.TwinAssemblies
import Mathlib.Data.List.FinRange
import Mathlib.Logic.Equiv.Defs

/-!
# The order in which steps are given

An assembler has its steps sorted by stage, and steps of one stage stay in the
order in which they are given. So it is told by the steps of each stage alone,
and an assembly by those of the active stages.
-/
namespace CompilerDriver

namespace Assembler

/-- The steps of the first list stand at other places in the second one, but no two of one stage
have changed their order. -/
def Rearranged (steps steps' : List StageAssembler) : Prop :=
  ∃ place : Fin steps.length ≃ Fin steps'.length,
    (∀ i, steps'[place i] = steps[i]) ∧
    ∀ i j, i < j → steps[i].stage = steps[j].stage → place i < place j

/-- The second list is the first one without some of the steps for inactive stages. -/
inductive Drops (stages : StagePlan) : List StageAssembler → List StageAssembler → Prop where
  | nil : Drops stages [] []
  | keep (step : StageAssembler) {steps steps' : List StageAssembler} :
      Drops stages steps steps' → Drops stages (step :: steps) (step :: steps')
  | drop {step : StageAssembler} {steps steps' : List StageAssembler} :
      stages.isActive step.stage = false → Drops stages steps steps' →
      Drops stages (step :: steps) steps'

/-- Under these settings and for these stages both assemblers do the same, wherever they start. -/
structure SameAssembly (settings : BuildSettings) (stages : StagePlan) (a a' : Assembler) : Prop
    where
  /-- With the same tokens, the outcome is the same in every detail. -/
  run : ∀ w, (a'.assemble settings stages).run w = (a.assemble settings stages).run w
  /-- With other tokens it is the same up to these, unless an allocation is refused. -/
  renamed : ∀ (w : Workspace) (names : NameSupply),
    ¬ Build.AllocationFails ((a.assemble settings stages).run w) →
    ¬ Build.AllocationFails ((a'.assemble settings stages).run { w with names := names }) →
    ∃ drawn drawn', SameOutcome settings.config w drawn drawn' ((a.assemble settings stages).run w)
      ((a'.assemble settings stages).run { w with names := names })

/-- What an assembler makes of a list of steps, and which other lists make one that does the
same. -/
structure OrderInsensitive (steps : List StageAssembler) : Prop where
  /-- All the steps are there, sorted by stage as by the stable sort of the library. -/
  sorted : (ofSteps steps).steps = steps.mergeSort fun a b => a.stage.index ≤ b.stage.index
  rearranged : ∀ steps', Rearranged steps steps' →
    ∀ settings stages, SameAssembly settings stages (ofSteps steps) (ofSteps steps')
  dropped : ∀ settings stages steps', Drops stages steps steps' →
    SameAssembly settings stages (ofSteps steps) (ofSteps steps')

end Assembler

section Places

variable {α : Type}

/-- The entries that are selected, by their places. -/
theorem filter_eq_map_finRange (P : α → Bool) (xs : List α) :
    xs.filter P = ((List.finRange xs.length).filter fun i => P xs[i]).map fun i => xs[i] := by
  have hall : (List.finRange xs.length).map (fun i => xs[i]) = xs := List.map_getElem_finRange xs
  conv_lhs => rw [← hall, List.filter_map]
  rfl

/-- Where the selected entries keep their order, they are the same list. -/
theorem filter_eq_of_places {P : α → Bool} {xs ys : List α} (place : Fin xs.length ≃ Fin ys.length)
    (hmoved : ∀ i, ys[place i] = xs[i])
    (hordered : ∀ i j, i < j → P xs[i] = true → P xs[j] = true → place i < place j) :
    ys.filter P = xs.filter P := by
  let chosen := (List.finRange xs.length).filter fun i => P xs[i]
  let chosen' := (List.finRange ys.length).filter fun i => P ys[i]
  have hmem (i : Fin xs.length) : i ∈ chosen ↔ P xs[i] = true := by simp [chosen]
  have hmem' (j : Fin ys.length) : j ∈ chosen' ↔ P ys[j] = true := by simp [chosen']
  have hsorted : (chosen.map place).Pairwise (· < ·) := by
    have hpairs : chosen.Pairwise (· < ·) := (List.pairwise_lt_finRange _).filter _
    rw [List.pairwise_map]
    refine hpairs.imp_of_mem fun {i j} hi hj hlt => ?_
    exact hordered i j hlt ((hmem i).mp hi) ((hmem j).mp hj)
  have hsorted' : chosen'.Pairwise (· < ·) := (List.pairwise_lt_finRange _).filter _
  have hsame : chosen' = chosen.map place := by
    refine List.Perm.eq_of_pairwise (fun a b _ _ hab hba => ?_) hsorted' hsorted ?_
    · exact absurd hba (Fin.lt_asymm hab)
    · rw [List.perm_ext_iff_of_nodup hsorted'.nodup hsorted.nodup]
      intro j
      obtain ⟨i, rfl⟩ := place.surjective j
      rw [List.mem_map_of_injective place.injective, hmem, hmem', hmoved]
  calc ys.filter P = chosen'.map (fun j => ys[j]) := filter_eq_map_finRange P ys
    _ = chosen.map (fun i => xs[i]) := by
      rw [hsame, List.map_map]
      exact List.map_congr_left fun i _ => hmoved i
    _ = xs.filter P := (filter_eq_map_finRange P xs).symm

end Places

namespace Assembler

variable {steps steps' : List StageAssembler} {stages : StagePlan}

/-- The steps of every stage are what they were. -/
theorem Rearranged.filter_eq (h : Rearranged steps steps') (s : Stage) :
    steps'.filter (·.stage = s) = steps.filter (·.stage = s) := by
  obtain ⟨place, hmoved, hordered⟩ := h
  refine filter_eq_of_places place hmoved fun i j hlt hi hj => hordered i j hlt ?_
  exact (of_decide_eq_true hi).trans (of_decide_eq_true hj).symm

theorem ofSteps_eq_of_rearranged (h : Rearranged steps steps') :
    ofSteps steps' = ofSteps steps := by
  unfold ofSteps
  simp only [h.filter_eq]

/-- The steps at some stages, one stage after the other. -/
def byStages (steps : List StageAssembler) (l : List Stage) : List StageAssembler :=
  l.flatMap fun s => steps.filter (·.stage = s)

theorem byStages_append (steps : List StageAssembler) (l l' : List Stage) :
    byStages steps (l ++ l') = byStages steps l ++ byStages steps l' := List.flatMap_append

/-- A step in front of the others comes before those of its stage, and moves no other. -/
theorem byStages_cons (step : StageAssembler) (rest : List StageAssembler)
    {before after : List Stage} (hall : Stage.all = before ++ step.stage :: after) :
    byStages (step :: rest) Stage.all =
      byStages rest before ++ step :: byStages rest (step.stage :: after) := by
  have hnodup := Stage.nodup_all
  rw [hall, List.nodup_middle, List.nodup_cons, List.mem_append, not_or] at hnodup
  obtain ⟨⟨hbefore, hafter⟩, -⟩ := hnodup
  have hothers (l : List Stage) (hl : step.stage ∉ l) :
      byStages (step :: rest) l = byStages rest l := by
    refine List.flatMap_congr fun s hs => List.filter_cons_of_neg ?_
    simpa using fun he : step.stage = s => hl (he ▸ hs)
  have hhead : (step :: rest).filter (·.stage = step.stage) =
      step :: rest.filter (·.stage = step.stage) := List.filter_cons_of_pos (by simp)
  have hstage : byStages (step :: rest) (step.stage :: after) =
      step :: byStages rest (step.stage :: after) := by
    rw [byStages, List.flatMap_cons, hhead]
    exact congrArg (step :: rest.filter (·.stage = step.stage) ++ ·) (hothers after hafter)
  rw [hall, byStages_append, hothers before hbefore, hstage]

/-- A list that is sorted by stage is put together of its stages. -/
theorem steps_ofSteps_of_sorted (h : steps.Pairwise fun a b => a.stage.index ≤ b.stage.index) :
    (ofSteps steps).steps = steps := by
  change byStages steps Stage.all = steps
  induction steps with
  | nil => rfl
  | cons step rest ih =>
    obtain ⟨hfirst, hrest⟩ := List.pairwise_cons.mp h
    obtain ⟨before, after, hall⟩ := List.append_of_mem step.stage.mem_all
    have hindex : Stage.all.Pairwise fun a b => a.index < b.index := by decide
    rw [hall, List.pairwise_append] at hindex
    -- No step is left for the stages before the first one.
    have hnone : byStages rest before = [] := by
      refine List.flatMap_eq_nil_iff.mpr fun s hs => List.filter_eq_nil_iff.mpr ?_
      intro other hother he
      have hlt := hindex.2.2 s hs step.stage List.mem_cons_self
      have hle := hfirst other hother
      rw [of_decide_eq_true he] at hle
      exact Nat.not_lt.mpr hle hlt
    have hih : byStages rest (before ++ step.stage :: after) = rest := hall ▸ ih hrest
    rw [byStages_append, hnone, List.nil_append] at hih
    rw [byStages_cons step rest hall, hnone, List.nil_append, hih]

/-- The steps are sorted as by the stable sort of the library. -/
theorem steps_ofSteps_eq_mergeSort (steps : List StageAssembler) :
    (ofSteps steps).steps = steps.mergeSort fun a b => a.stage.index ≤ b.stage.index := by
  let le : StageAssembler → StageAssembler → Bool := fun a b => a.stage.index ≤ b.stage.index
  have htrans (a b c : StageAssembler) (hab : le a b = true) (hbc : le b c = true) :
      le a c = true :=
    decide_eq_true (Nat.le_trans (of_decide_eq_true hab) (of_decide_eq_true hbc))
  have htotal (a b : StageAssembler) : (le a b || le b a) = true := by
    simpa [le] using Nat.le_total a.stage.index b.stage.index
  have hsorted : (steps.mergeSort le).Pairwise fun a b => a.stage.index ≤ b.stage.index :=
    (List.pairwise_mergeSort htrans htotal steps).imp of_decide_eq_true
  have hfilter (s : Stage) :
      (steps.mergeSort le).filter (·.stage = s) = steps.filter (·.stage = s) := by
    have hstage {a : StageAssembler} (ha : a ∈ steps.filter (·.stage = s)) : a.stage = s :=
      of_decide_eq_true (List.mem_filter.mp ha).2
    -- The steps of one stage are sorted as they stand, and so they keep their order.
    have hpairs : (steps.filter (·.stage = s)).Pairwise (le · ·) :=
      List.pairwise_of_forall_mem_list fun a ha b hb =>
        decide_eq_true (by rw [hstage ha, hstage hb])
    have hsub : (steps.filter (·.stage = s)).Sublist
        ((steps.mergeSort le).filter (·.stage = s)) := by
      have hkept := (List.sublist_mergeSort htrans htotal hpairs List.filter_sublist).filter
        (·.stage = s)
      simpa only [List.filter_filter, Bool.and_self] using hkept
    exact (hsub.eq_of_length ((List.mergeSort_perm steps le).filter _).length_eq.symm).symm
  have hsame : ofSteps steps = ofSteps (steps.mergeSort le) := by
    unfold ofSteps
    simp only [hfilter]
  rw [hsame, steps_ofSteps_of_sorted hsorted]

/-- Steps of one stage cannot change places. -/
example : ofSteps [.link, .perUnit .link] ≠ ofSteps [.perUnit .link, .link] := by decide

theorem Drops.filter_eq (h : Drops stages steps steps') :
    (steps'.filter fun step => stages.isActive step.stage) =
      steps.filter fun step => stages.isActive step.stage := by
  induction h with
  | nil => rfl
  | keep step _ ih => rw [List.filter_cons, List.filter_cons, ih]
  | drop hinactive _ ih => rw [List.filter_cons, hinactive, ih]; rfl

/-- Of the sorted steps, those that run are the sorted steps of the active stages. -/
theorem filter_steps_ofSteps (P : StageAssembler → Bool) (steps : List StageAssembler) :
    (ofSteps steps).steps.filter P = (ofSteps (steps.filter P)).steps := by
  unfold ofSteps
  rw [List.filter_flatMap]
  exact List.flatMap_congr fun s _ => List.filter_comm ..

theorem assemble_eq_of_drops (h : Drops stages steps steps') (settings : BuildSettings) :
    (ofSteps steps').assemble settings stages = (ofSteps steps).assemble settings stages := by
  unfold assemble
  rw [filter_steps_ofSteps, filter_steps_ofSteps, h.filter_eq]

theorem sameAssembly_of_eq {a a' : Assembler} {settings : BuildSettings}
    (h : a'.assemble settings stages = a.assemble settings stages) :
    SameAssembly settings stages a a' where
  run w := by rw [h]
  renamed w names hn hn' := by
    rw [h] at hn' ⊢
    exact a.sameOutcome_assemble settings stages w names hn hn'

/-- Any list of steps can be rearranged, as long as those of one stage keep their order, and can do
without those of inactive stages. -/
theorem orderInsensitive (steps : List StageAssembler) : OrderInsensitive steps where
  sorted := steps_ofSteps_eq_mergeSort steps
  rearranged steps' h settings stages :=
    sameAssembly_of_eq (by rw [ofSteps_eq_of_rearranged h])
  dropped settings stages steps' h := sameAssembly_of_eq (assemble_eq_of_drops h settings)

end Assembler

end CompilerDriver
