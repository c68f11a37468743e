import CompilerDriver.Error
import CompilerDriver.Temporary

/-! Where a run works: the file system, the supply of temporary names, and the registry of the
temporaries created so far. The registry is emptied by cleaning up, on every way out of a run. -/
namespace CompilerDriver

/-- The temporaries of one run, in the order they were created. -/
structure TempArena where
  dir : Path
  paths : List Path := []
  deriving DecidableEq, Repr

structure Workspace where
  fs : FileSystem
  names : NameSupply
  arena : TempArena

namespace Workspace

/-- Creates an empty temporary and registers it. On failure nothing is registered. -/
def allocate (w : Workspace) (name extension : String) :
    Except PipelineError Path × Workspace :=
  match NameSupply.create w.arena.dir name extension NameSupply.attempts w.names w.fs with
  | (.ok (path, fs), names) =>
    (.ok path, ⟨fs, names, { w.arena with paths := w.arena.paths ++ [path] }⟩)
  | (.error error, names) => (.error (.tempArtifact error), { w with names := names })

/-- Deletes the files among the paths and counts them. What is missing or is no file is passed
over. -/
def removeAll : List Path → FileSystem → Nat × FileSystem
  | [], fs => (0, fs)
  | p :: rest, fs =>
    match fs.remove p with
    | .ok fs' =>
      let (count, fs'') := removeAll rest fs'
      (count + 1, fs'')
    | .error _ => removeAll rest fs

/-- Removes every registered temporary that is still a file and empties the registry. -/
def cleanup (w : Workspace) : Nat × Workspace :=
  let (count, fs) := removeAll w.arena.paths w.fs
  (count, { w with fs := fs, arena := { w.arena with paths := [] } })

/-- The registered temporaries that are still there and that cleaning up cannot remove. -/
def stuck (w : Workspace) : List (Path × SystemError) :=
  w.arena.paths.filterMap fun p =>
    match w.fs.remove p with
    | .ok _ => none
    | .error error => if error.kind = .notFound then none else some (p, error)

/-- A fresh registry takes the place of the old one, which is cleaned up first. -/
def reopen (w : Workspace) (dir : Path) : Workspace :=
  { w.cleanup.2 with arena := { dir := dir } }

@[simp] theorem paths_cleanup (w : Workspace) : w.cleanup.2.arena.paths = [] := rfl

theorem paths_allocate_of_ok {w : Workspace} {name extension : String} {path : Path}
    (h : (w.allocate name extension).1 = .ok path) :
    (w.allocate name extension).2.arena.paths = w.arena.paths ++ [path] := by
  unfold allocate at h ⊢
  split at h <;> simp_all

theorem unchanged_of_allocate_error {w : Workspace} {name extension : String}
    {error : PipelineError} (h : (w.allocate name extension).1 = .error error) :
    (w.allocate name extension).2.arena = w.arena ∧ (w.allocate name extension).2.fs = w.fs := by
  unfold allocate at h ⊢
  split at h <;> simp_all

end Workspace

end CompilerDriver
