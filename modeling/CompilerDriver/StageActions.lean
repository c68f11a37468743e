import CompilerDriver.Action.Basic

/-! The actions of a run, listed by stage in the order they were assembled. -/
namespace CompilerDriver

structure StageActions where
  lists : PerStage (List Action) := .replicate []
  deriving DecidableEq, Repr

namespace StageActions

def stage (t : StageActions) (s : Stage) : List Action := t.lists.get s

def setStage (t : StageActions) (s : Stage) (list : List Action) : StageActions :=
  ⟨t.lists.set s list⟩

def get? (t : StageActions) (id : ActionId) : Option Action := (t.stage id.stage)[id.index]?

/-- All actions in the order they run. -/
def toList (t : StageActions) : List Action := Stage.all.flatMap t.stage

def size (t : StageActions) : Nat := t.toList.length

/-- Adds an action at the end of its stage. -/
def push (t : StageActions) (s : Stage) (a : Action) : StageActions × ActionId :=
  (t.setStage s (t.stage s ++ [a]), ⟨s, (t.stage s).length⟩)

@[simp] theorem stage_setStage_self (t : StageActions) (s : Stage) (list : List Action) :
    (t.setStage s list).stage s = list := PerStage.get_set_self ..

theorem stage_setStage_of_ne (t : StageActions) {s r : Stage} (list : List Action) (h : r ≠ s) :
    (t.setStage s list).stage r = t.stage r := PerStage.get_set_of_ne _ _ h

theorem get?_push (t : StageActions) (s : Stage) (a : Action) :
    (t.push s a).1.get? (t.push s a).2 = some a := by
  simp [push, get?]

/-- An action that was there keeps its place. -/
theorem get?_push_of_isSome (t : StageActions) (s : Stage) (a : Action) {id : ActionId}
    (h : (t.get? id).isSome = true) : (t.push s a).1.get? id = t.get? id := by
  unfold get? push at *
  by_cases hs : id.stage = s
  · subst hs
    rw [stage_setStage_self]
    have hi : id.index < (t.stage id.stage).length := by
      rcases Nat.lt_or_ge id.index (t.stage id.stage).length with hi | hi
      · exact hi
      · rw [List.getElem?_eq_none hi] at h; cases h
    rw [List.getElem?_append_left hi]
  · rw [stage_setStage_of_ne _ _ hs]

end StageActions

end CompilerDriver
