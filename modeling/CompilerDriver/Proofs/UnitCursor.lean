import CompilerDriver.CompilationUnit
import Mathlib.Data.List.Basic

/-!
# The cursor of a unit

A unit keeps what its latest action reads and writes in two fields. By the list
of its artifacts alone, an action writes the last of them and reads the one
before, or the source where there is none before. The two agree after any
outputs, given or drawn, and however many of them the system refuses.
-/
namespace CompilerDriver

/-- What the latest action reads: the second to last artifact, or else the source. -/
def inputAmong (source : Option Path) (artifacts : List Path) : Option Path :=
  if 2 ≤ artifacts.length then artifacts[artifacts.length - 2]? else source

/-- A path that should be there, or the error of a unit that lacks it. -/
def orError (error : PipelineError) : Option Path → Except PipelineError Path
  | some path => .ok path
  | none => .error error

/-- One more output for a unit: a path that is given, or a temporary that is drawn. -/
inductive Appending where
  | final (path : Path)
  | temporary (extension : String)

/-- A unit, and the workspace in which its temporaries are made. -/
structure UnitWork where
  unit : CompilationUnit
  workspace : Workspace

namespace Appending

/-- The path that is appended, unless the system refuses to make it. -/
def answer (a : Appending) (g : UnitWork) : Except PipelineError Path :=
  match a with
  | .final path => .ok path
  | .temporary extension => (g.workspace.allocate g.unit.name extension).1

/-- The unit and the workspace afterwards. Where the system refuses the output, the unit at hand is
still the one before. -/
def next (a : Appending) (g : UnitWork) : UnitWork :=
  match a with
  | .final path => ⟨g.unit.append path, g.workspace⟩
  | .temporary extension =>
    match g.unit.appendTemporary g.workspace extension with
    | (.ok u, w) => ⟨u, w⟩
    | (.error _, w) => ⟨g.unit, w⟩

/-- What is appended, one path at most. -/
def appended (a : Appending) (g : UnitWork) : List Path := (a.answer g).toOption.toList

/-- What is appended and was drawn for it. -/
def drawn (a : Appending) (g : UnitWork) : List Path :=
  match a with
  | .final _ => []
  | .temporary _ => a.appended g

variable {a : Appending} {g : UnitWork} {path : Path} {e : PipelineError}

theorem unit_next_of_ok (h : a.answer g = .ok path) : (a.next g).unit = g.unit.append path := by
  cases a with
  | final given =>
    cases h
    rfl
  | temporary extension =>
    rcases hw : g.workspace.allocate g.unit.name extension with ⟨_ | drawn, w⟩
    · rw [answer, hw] at h
      cases h
    · rw [answer, hw] at h
      cases h
      rw [next, CompilationUnit.appendTemporary, hw]

/-- A unit that is refused an output stays as it is, and nothing is registered. -/
theorem next_of_error (h : a.answer g = .error e) :
    (a.next g).unit = g.unit ∧ (a.next g).workspace.arena = g.workspace.arena := by
  cases a with
  | final given => cases h
  | temporary extension =>
    have harena := (Workspace.unchanged_of_allocate_error h).1
    rcases hw : g.workspace.allocate g.unit.name extension with ⟨_ | drawn, w⟩
    · rw [hw] at harena
      rw [next, CompilationUnit.appendTemporary, hw]
      exact ⟨rfl, harena⟩
    · rw [answer, hw] at h
      cases h

/-- What is drawn is registered after the temporaries there were. -/
theorem paths_next (a : Appending) (g : UnitWork) :
    (a.next g).workspace.arena.paths = g.workspace.arena.paths ++ a.drawn g := by
  cases h : a.answer g with
  | error e =>
    have hnone : a.drawn g = [] := by
      unfold drawn appended
      rw [h]
      cases a <;> rfl
    rw [hnone, List.append_nil, (next_of_error h).2]
  | ok path =>
    cases a with
    | final given => exact (List.append_nil _).symm
    | temporary extension =>
      have hpaths := Workspace.paths_allocate_of_ok h
      rw [drawn, appended, h]
      rcases hw : g.workspace.allocate g.unit.name extension with ⟨_ | drawn, w⟩
      · rw [answer, hw] at h
        cases h
      · rw [hw] at hpaths
        rw [next, CompilationUnit.appendTemporary, hw]
        exact hpaths

end Appending

namespace UnitWork

def follow (g : UnitWork) (steps : List Appending) : UnitWork :=
  steps.foldl (fun g a => a.next g) g

/-- All that the steps append, in order. -/
def appended : UnitWork → List Appending → List Path
  | _, [] => []
  | g, a :: rest => a.appended g ++ appended (a.next g) rest

/-- The temporaries among what the steps append. -/
def drawn : UnitWork → List Appending → List Path
  | _, [] => []
  | g, a :: rest => a.drawn g ++ drawn (a.next g) rest

end UnitWork

namespace CompilationUnit

/-- The unit has come to these artifacts from the other one, and its cursor is at the last. -/
structure Tracks (origin u : CompilationUnit) (artifacts : List Path) : Prop where
  source : u.source = origin.source
  name : u.name = origin.name
  history : u.history = artifacts
  previous : u.previous = artifacts.dropLast.getLast?
  current : u.current = artifacts.getLast?

namespace Tracks

variable {origin u : CompilationUnit} {artifacts : List Path} {a : Appending} {g : UnitWork}

theorem append (h : Tracks origin u artifacts) (path : Path) :
    Tracks origin (u.append path) (artifacts ++ [path]) where
  source := h.source
  name := h.name
  history := by rw [history_append, h.history]
  previous := by
    rw [List.dropLast_concat, ← h.current]
    rfl
  current := by
    rw [List.getLast?_concat]
    rfl

/-- An output that is granted moves the cursor on, and one that is refused does not. -/
theorem next (h : Tracks origin g.unit artifacts) (a : Appending) :
    Tracks origin (a.next g).unit (artifacts ++ a.appended g) := by
  unfold Appending.appended
  cases ha : a.answer g with
  | ok path =>
    rw [Appending.unit_next_of_ok ha]
    exact h.append path
  | error e =>
    rw [(Appending.next_of_error ha).1]
    exact (List.append_nil artifacts).symm ▸ h

theorem follow (h : Tracks origin g.unit artifacts) (steps : List Appending) :
    Tracks origin (g.follow steps).unit (artifacts ++ g.appended steps) := by
  induction steps generalizing g artifacts with
  | nil => exact (List.append_nil artifacts).symm ▸ h
  | cons a rest ih =>
    rw [UnitWork.appended, ← List.append_assoc]
    exact ih (h.next a)

theorem currentOutput (h : Tracks origin u artifacts) :
    u.currentOutput = orError (.noOutputAssigned origin.name) artifacts.getLast? := by
  rw [CompilationUnit.currentOutput, h.current, h.name]
  cases artifacts.getLast? <;> rfl

theorem nextInput (h : Tracks origin u artifacts) :
    u.nextInput = artifacts.getLast?.or origin.source := by
  rw [CompilationUnit.nextInput, h.current, h.source]

theorem currentInput (h : Tracks origin u artifacts) :
    u.currentInput =
      orError (.noInputAssigned origin.name) (inputAmong origin.source artifacts) := by
  have hinput : u.previous.or u.source = inputAmong origin.source artifacts := by
    have hindex : artifacts.length - 1 - 1 = artifacts.length - 2 := by omega
    rw [h.previous, h.source, inputAmong, List.getLast?_eq_getElem?, List.length_dropLast,
      List.getElem?_dropLast, hindex]
    by_cases hlong : 2 ≤ artifacts.length
    · have hlast : artifacts.length - 2 < artifacts.length := by omega
      rw [if_pos hlong, if_pos (by omega), List.getElem?_eq_getElem hlast, Option.some_or]
    · rw [if_neg hlong, if_neg (by omega), Option.none_or]
  rw [CompilationUnit.currentInput, hinput, h.name]
  cases inputAmong origin.source artifacts <;> rfl

end Tracks

theorem tracks_ofSource (source : Path) : Tracks (.ofSource source) (.ofSource source) [] :=
  ⟨rfl, rfl, rfl, rfl, rfl⟩

theorem tracks_combined (output : Path) : Tracks (.combined output) (.combined output) [] :=
  ⟨rfl, rfl, rfl, rfl, rfl⟩

end CompilationUnit

namespace UnitWork

/-- The registry grows by what is drawn. -/
theorem paths_follow (g : UnitWork) (steps : List Appending) :
    (g.follow steps).workspace.arena.paths = g.workspace.arena.paths ++ g.drawn steps := by
  induction steps generalizing g with
  | nil => exact (List.append_nil _).symm
  | cons a rest ih =>
    have hrest : (g.follow (a :: rest)) = (a.next g).follow rest := rfl
    rw [hrest, ih, a.paths_next, drawn, List.append_assoc]

/-- What a unit and its registry are after some steps, by the list of what was appended. -/
structure KeepsArtifacts (g : UnitWork) (steps : List Appending) : Prop where
  history : (g.follow steps).unit.history = g.appended steps
  currentOutput : (g.follow steps).unit.currentOutput =
    orError (.noOutputAssigned g.unit.name) (g.appended steps).getLast?
  currentInput : (g.follow steps).unit.currentInput =
    orError (.noInputAssigned g.unit.name) (inputAmong g.unit.source (g.appended steps))
  nextInput : (g.follow steps).unit.nextInput = (g.appended steps).getLast?.or g.unit.source
  /-- With the next output that is granted, the input that was to come is the current one. -/
  upcoming : ∀ (a : Appending) (path : Path), a.answer (g.follow steps) = .ok path →
    (a.next (g.follow steps)).unit.currentInput =
      orError (.noInputAssigned g.unit.name) (g.follow steps).unit.nextInput
  refused : ∀ (a : Appending) (e : PipelineError), a.answer (g.follow steps) = .error e →
    (a.next (g.follow steps)).unit = (g.follow steps).unit ∧
      (a.next (g.follow steps)).workspace.arena = (g.follow steps).workspace.arena
  registered : (g.follow steps).workspace.arena.paths =
    g.workspace.arena.paths ++ g.drawn steps

theorem keepsArtifacts_of_tracks {g : UnitWork} (h : g.unit.Tracks g.unit [])
    (steps : List Appending) : g.KeepsArtifacts steps := by
  have hsteps := h.follow steps
  rw [List.nil_append] at hsteps
  refine
    { history := hsteps.history
      currentOutput := hsteps.currentOutput
      currentInput := hsteps.currentInput
      nextInput := hsteps.nextInput
      upcoming := fun a path ha => ?_
      refused := fun a e ha => Appending.next_of_error ha
      registered := g.paths_follow steps }
  rw [Appending.unit_next_of_ok ha, CompilationUnit.currentInput_append, hsteps.name]
  cases (g.follow steps).unit.nextInput <;> rfl

/-- For a unit of a source and for a combined one, in any workspace and after any steps. -/
theorem keepsArtifacts (w : Workspace) (steps : List Appending) :
    (∀ source, (UnitWork.mk (.ofSource source) w).KeepsArtifacts steps) ∧
      ∀ output, (UnitWork.mk (.combined output) w).KeepsArtifacts steps :=
  ⟨fun source => keepsArtifacts_of_tracks (CompilationUnit.tracks_ofSource source) steps,
    fun output => keepsArtifacts_of_tracks (CompilationUnit.tracks_combined output) steps⟩

end UnitWork

end CompilerDriver
