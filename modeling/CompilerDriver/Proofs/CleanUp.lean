import CompilerDriver.Build
import CompilerDriver.Proofs.RemovedTree
import CompilerDriver.Proofs.RunnerService
import CompilerDriver.Proofs.WorkspaceGrowth

/-!
# Every way out cleans up

A build ends in one of many ways: planning refuses it, assembly stops at a
source or at an allocation, an action fails, or all of them succeed. Wherever it
ends, the registry holds the temporaries that were made until then, and cleaning
up takes away those that are still files. What was made by anyone else stays,
and what cannot be removed changes nothing about the rest.
-/
namespace CompilerDriver

namespace FileSystem

/-- Deletes what stands at the locations of the paths, with everything below. -/
def removeTrees (fs : FileSystem) (paths : List Path) : FileSystem :=
  paths.foldl (fun fs q => fs.removeTree q.location) fs

/-- The locations of the paths that cleaning up removes. -/
def removals (fs : FileSystem) (paths : List Path) : List Location :=
  (paths.filter fs.isRemovable).map Path.location

section Cleaning

variable {fs fs' g : FileSystem} {p q : Path} {paths qs : List Path} {loc : Location}
  {node : Node}

theorem isRemovable_of_isDirectory (h : fs.isDirectory p = true) : fs.isRemovable p = false := by
  rw [isRemovable, h, Bool.not_true, Bool.and_false]

theorem mem_removals_iff :
    loc ∈ fs.removals paths ↔ ∃ q ∈ paths, fs.isRemovable q = true ∧ q.location = loc := by
  simp only [removals, List.mem_map, List.mem_filter, and_assoc]

theorem mem_locations_of_mem_removals (h : loc ∈ fs.removals paths) :
    loc ∈ paths.map Path.location := by
  obtain ⟨q, hq, -, rfl⟩ := mem_removals_iff.mp h
  exact List.mem_map_of_mem hq

/-- No directory is removed. -/
theorem node?_of_mem_removals (ha : ∀ q ∈ paths, q.isAbsolute = true) :
    ∀ loc ∈ g.removals paths, g.node? loc ≠ some .directory := by
  intro loc hm
  obtain ⟨q, hq, hr, rfl⟩ := mem_removals_iff.mp hm
  exact node?_of_isRemovable (ha q hq) hr

/-- What can be removed and what is a directory make up what is there. -/
theorem countP_isRemovable_add (fs : FileSystem) (paths : List Path) :
    paths.countP fs.isRemovable + paths.countP fs.isDirectory = paths.countP fs.contains := by
  induction paths with
  | nil => rfl
  | cons q rest ih =>
    have hdirectory : fs.isDirectory q = true → fs.contains q = true := fun h => by
      obtain ⟨loc, hf⟩ := isDirectory_iff.mp h
      exact contains_iff.mpr ⟨loc, _, hf⟩
    rw [List.countP_cons, List.countP_cons, List.countP_cons, ← ih, isRemovable]
    cases hd : fs.isDirectory q with
    | true =>
      simp [hdirectory hd]
      omega
    | false =>
      cases fs.contains q <;> simp
      omega

theorem eraseAll_removeTrees (fs : FileSystem) (qs : List Path) (locs : List Location) :
    (fs.removeTrees qs).eraseAll locs = (fs.eraseAll locs).removeTrees qs := by
  induction qs generalizing fs with
  | nil => rfl
  | cons q rest ih =>
    rw [removeTrees, List.foldl_cons, ← removeTrees, ih, eraseAll_removeTree]
    rfl

namespace Created

theorem nil_not_mem_removals (h : fs.Created paths fs') : [] ∉ g.removals paths := by
  intro hm
  obtain ⟨q, hq, -, he⟩ := mem_removals_iff.mp hm
  exact h.location_ne_nil hq he

theorem node?_ne_directory (h : fs.Created paths fs') :
    ∀ loc ∈ g.removals paths, g.node? loc ≠ some .directory :=
  node?_of_mem_removals h.isAbsolute

/-- A temporary is not there after cleaning up, unless it is a directory. -/
theorem contains_eraseAll (h : fs.Created paths fs') (hq : q ∈ paths)
    (hr : g.contains q = true → g.isRemovable q = true) :
    (g.eraseAll (g.removals paths)).contains q = false := by
  rw [← Bool.not_eq_true, contains_iff]
  rintro ⟨loc, node, hf⟩
  obtain ⟨hg, hm⟩ := (find_eraseAll_iff h.node?_ne_directory).mp hf
  have hloc : loc = q.location :=
    location_of_resolve (h.isAbsolute q hq) (find_eq_ok_iff.mp hg).1
  exact hm (mem_removals_iff.mpr ⟨q, hq, hr (contains_iff.mpr ⟨loc, node, hg⟩), hloc.symm⟩)

theorem node?_cleaned (h : fs.Created paths fs') (hl : loc ∉ g.removals paths) :
    (g.eraseAll (g.removals paths)).node? loc = g.node? loc := by
  rw [node?_eraseAll h.nil_not_mem_removals, if_neg hl]

theorem find_cleaned_iff (h : fs.Created paths fs') (hl : loc ∉ g.removals paths) :
    (g.eraseAll (g.removals paths)).find p = .ok (loc, node) ↔ g.find p = .ok (loc, node) := by
  rw [find_eraseAll_iff h.node?_ne_directory]
  exact and_iff_left hl

/-- Nothing is removed at the place of a directory, nor below it. -/
theorem not_mem_removals (h : fs.Created paths fs') (hq : q ∈ paths)
    (hd : g.isDirectory q = true) (hw : isWithin q.location loc = true) :
    loc ∉ g.removals paths := by
  intro hm
  obtain ⟨p, hp, hr, rfl⟩ := mem_removals_iff.mp hm
  by_cases he : p.location = q.location
  · obtain rfl : p = q := h.eq_of_location_eq hq hp he
    rw [isRemovable_of_isDirectory hd] at hr
    cases hr
  · have hout := h.not_isWithin hq hp he (List.append_nil p.pieces).symm
    rw [← Path.location, hw] at hout
    cases hout

theorem isDirectory_cleaned (h : fs.Created paths fs') (hq : q ∈ paths)
    (hd : g.isDirectory q = true) : (g.eraseAll (g.removals paths)).isDirectory q = true := by
  obtain ⟨loc, hf⟩ := isDirectory_iff.mp hd
  have hloc : loc = q.location :=
    location_of_resolve (h.isAbsolute q hq) (find_eq_ok_iff.mp hf).1
  have hkept : loc ∉ g.removals paths := by
    apply h.not_mem_removals hq hd
    rw [hloc]
    exact isWithin_iff.mpr (List.prefix_refl _)
  exact isDirectory_iff.mpr ⟨loc, (h.find_cleaned_iff hkept).mpr hf⟩

/-- Trees at the places of temporaries that cannot be removed decide about no other one. -/
theorem isRemovable_removeTrees (h : fs.Created paths fs')
    (hqs : ∀ q ∈ qs, q ∈ paths ∧ g.isRemovable q = false) :
    ∀ p ∈ paths, (g.removeTrees qs).isRemovable p = g.isRemovable p := by
  induction qs generalizing g with
  | nil => exact fun _ _ => rfl
  | cons q rest ih =>
    obtain ⟨⟨hq, hr⟩, hrest⟩ := List.forall_mem_cons.mp hqs
    have hstep : ∀ p ∈ paths, (g.removeTree q.location).isRemovable p = g.isRemovable p :=
      fun p hp => h.isRemovable_removeTree hq hp hr
    intro p hp
    rw [← hstep p hp]
    refine ih (fun q' hq' => ?_) p hp
    rw [hstep q' (hrest q' hq').1]
    exact hrest q' hq'

/-- Taking away what was made restores the file system. -/
theorem eraseAll_removals (h : fs.Created paths fs') :
    fs'.eraseAll (fs'.removals paths) = fs := by
  have hfilter : paths.filter fs'.isRemovable = paths := by
    apply List.filter_eq_self.mpr
    intro q hq
    exact isRemovable_iff.mpr ⟨_, _, h.find hq, by simp⟩
  have hold : ∀ e ∈ fs.entries, e.1 ∉ paths.map Path.location := by
    intro e he hm
    obtain ⟨q, hq, hloc⟩ := List.mem_map.mp hm
    exact ne_of_mem_entries (h.vacant q hq) e he hloc.symm
  have hentries : fs'.entries.filter (·.1 ∉ paths.map Path.location) = fs.entries := by
    rw [h.entries, List.filter_append, List.filter_eq_nil_iff.mpr, List.nil_append,
      List.filter_eq_self.mpr]
    · simpa using hold
    · intro e he
      obtain ⟨q, hq, rfl⟩ := List.mem_map.mp (List.mem_reverse.mp he)
      simpa using ⟨q, hq, rfl⟩
  have hworking : fs'.workingDir = fs.workingDir := h.keepsDirectories.workingDir
  rw [removals, hfilter, eraseAll, hentries, hworking]

end Created

end Cleaning

end FileSystem

namespace Build

/-- A build that has ended in one way or another and has not cleaned up yet. -/
structure Work where
  result : Except PipelineError (BuildPlan × Nat)
  workspace : Workspace
  calls : List Call := []
  notices : List Notice := []

namespace Work

def fs (k : Work) : FileSystem := k.workspace.fs

def temporaries (k : Work) : List Path := k.workspace.arena.paths

/-- The same build on another file system. -/
def withFs (k : Work) (fs : FileSystem) : Work :=
  { k with workspace := { k.workspace with fs := fs } }

def cleanUp (k : Work) : BuildOutcome :=
  let (removed, after) := k.workspace.cleanup
  { result := k.result.map fun (plan, completed) => ⟨plan, completed, removed⟩
    fs := after.fs
    names := after.names
    temporaries := k.temporaries
    calls := k.calls
    stuck := k.workspace.stuck
    notices := k.notices }

/-- The files among the temporaries are removed and counted, and nothing else happens. -/
theorem cleanup_eq {k : Work} {fs fs' : FileSystem} (h : fs.Created k.temporaries fs') :
    k.workspace.cleanup.1 = k.temporaries.countP k.fs.isRemovable ∧
      k.workspace.cleanup.2.fs = k.fs.eraseAll (k.fs.removals k.temporaries) := by
  have hremove : Workspace.removeAll k.temporaries k.fs =
      (k.temporaries.countP k.fs.isRemovable, k.fs.eraseAll (k.fs.removals k.temporaries)) :=
    Workspace.removeAll_eq h.isAbsolute h.nodup
  have hcleanup : k.workspace.cleanup =
      ((Workspace.removeAll k.temporaries k.fs).1,
        { k.workspace with
          fs := (Workspace.removeAll k.temporaries k.fs).2
          arena := { k.workspace.arena with paths := [] } }) := rfl
  rw [hcleanup, hremove]
  exact ⟨rfl, rfl⟩

section CleanedUp

variable {k : Work} {fs fs' : FileSystem}

theorem result_cleanUp (k : Work) : k.cleanUp.result =
    k.result.map fun (plan, completed) => ⟨plan, completed, k.workspace.cleanup.1⟩ := rfl

theorem fs_cleanUp (h : fs.Created k.temporaries fs') :
    k.cleanUp.fs = k.fs.eraseAll (k.fs.removals k.temporaries) :=
  (cleanup_eq h).2

theorem removed_cleanUp (h : fs.Created k.temporaries fs') {summary : BuildSummary}
    (hs : k.cleanUp.result = .ok summary) :
    summary.removed + k.temporaries.countP k.fs.isDirectory =
      k.temporaries.countP k.fs.contains := by
  rw [result_cleanUp] at hs
  cases hk : k.result with
  | error e =>
    rw [hk] at hs
    cases hs
  | ok done =>
    rw [hk] at hs
    cases hs
    rw [(cleanup_eq h).1]
    exact FileSystem.countP_isRemovable_add k.fs k.temporaries

/-- Cleaning up does not notice what became of temporaries that are directories. -/
theorem cleanUp_removeTrees (h : fs.Created k.temporaries fs') {qs : List Path}
    (hqs : ∀ q ∈ qs, q ∈ k.temporaries ∧ k.fs.isDirectory q = true) :
    (k.withFs (k.fs.removeTrees qs)).cleanUp.result = k.cleanUp.result ∧
      (k.withFs (k.fs.removeTrees qs)).cleanUp.fs = k.cleanUp.fs.removeTrees qs := by
  have hsame : ∀ p ∈ k.temporaries, (k.fs.removeTrees qs).isRemovable p = k.fs.isRemovable p :=
    h.isRemovable_removeTrees fun q hq =>
      ⟨(hqs q hq).1, FileSystem.isRemovable_of_isDirectory (hqs q hq).2⟩
  have hremovals : (k.fs.removeTrees qs).removals k.temporaries = k.fs.removals k.temporaries := by
    rw [FileSystem.removals, List.filter_congr hsame]
    rfl
  obtain ⟨hcount, hfs⟩ := cleanup_eq (k := k.withFs (k.fs.removeTrees qs)) h
  constructor
  · have hcounts : (k.withFs (k.fs.removeTrees qs)).workspace.cleanup.1 =
        k.workspace.cleanup.1 := by
      rw [hcount, (cleanup_eq h).1]
      apply List.countP_congr
      intro p hp
      rw [← hsame p hp]
      rfl
    rw [result_cleanUp k, ← hcounts]
    rfl
  · have hcleaned : (k.withFs (k.fs.removeTrees qs)).cleanUp.fs =
        (k.fs.removeTrees qs).eraseAll ((k.fs.removeTrees qs).removals k.temporaries) := hfs
    rw [hcleaned, hremovals, FileSystem.eraseAll_removeTrees, fs_cleanUp h]

end CleanedUp

end Work

variable (env : Environment) (runner : Runner) (c : Config) (fs : FileSystem) (names : NameSupply)

/-- The build up to the point where it cleans up. -/
def work : Work :=
  let planned := StagePlan.notices c.stages
  match StagePlan.resolve c with
  | .error error =>
    { result := .error error
      workspace := ⟨fs, names, { dir := c.tempDir.getD env.tempDir }⟩
      notices := planned }
  | .ok stages =>
    let notices := planned ++ Assembler.notices c
    match assemble env stages c fs names with
    | (.error error, w) => { result := .error error, workspace := w, notices := notices }
    | (.ok plan, w) =>
      let (outcome, actions, s) := plan.actions.execute runner (.ofDryRun c.dryRun) { fs := w.fs }
      { result := outcome.map fun completed => ({ plan with actions := actions }, completed)
        workspace := { w with fs := s.fs }
        calls := s.calls
        notices := notices ++ match outcome with
          | .ok completed => [.finished completed plan.stages.last]
          | .error _ => [] }

theorem run_eq_cleanUp : run env runner c fs names = (work env runner c fs names).cleanUp := by
  unfold run work
  cases StagePlan.resolve c with
  | error e => rfl
  | ok stages =>
    dsimp only
    rcases assemble env stages c fs names with ⟨e | plan, w⟩
    · rfl
    · dsimp only
      unfold finish
      rcases plan.actions.execute runner (.ofDryRun c.dryRun) { fs := w.fs } with
        ⟨e | completed, actions, s⟩ <;> rfl

/-- Whether assembly succeeds or not, it registers the files that it makes. -/
theorem created_assemble (stages : StagePlan) :
    fs.Created (assemble env stages c fs names).2.arena.paths
      (assemble env stages c fs names).2.fs := by
  obtain ⟨paths, harena, hcreated⟩ := Assembler.standard.grows_assemble
    ⟨c, Toolchain.locate env fs c.toolchain⟩ stages
    ⟨fs, names, { dir := c.tempDir.getD env.tempDir }⟩
  have hpaths : (assemble env stages c fs names).2.arena.paths = paths :=
    congrArg TempArena.paths harena
  rw [hpaths]
  exact hcreated

/-- Until then the temporaries are made, and after that the runner alone is at work. -/
theorem served_work : ∃ assembled, fs.Created (work env runner c fs names).temporaries assembled ∧
    runner.Serves ⟨assembled, []⟩
      ⟨(work env runner c fs names).fs, (work env runner c fs names).calls⟩ := by
  unfold work
  cases StagePlan.resolve c with
  | error e => exact ⟨fs, .nil, .refl⟩
  | ok stages =>
    have hcreated := created_assemble env c fs names stages
    dsimp only
    rcases ha : assemble env stages c fs names with ⟨e | plan, w⟩
    · rw [ha] at hcreated
      exact ⟨w.fs, hcreated, .refl⟩
    · rw [ha] at hcreated
      exact ⟨w.fs, hcreated, plan.actions.execute_serves runner (.ofDryRun c.dryRun) ⟨w.fs, []⟩⟩

/-- How the outcome of a build relates to what there was when it began to clean up. -/
structure CleansUp (k : Work) (o : BuildOutcome) : Prop where
  outcome : o = k.cleanUp
  /-- The registered temporaries are the files that were made. All else is due to the runner. -/
  served : ∃ assembled, fs.Created o.temporaries assembled ∧
    runner.Serves ⟨assembled, []⟩ ⟨k.fs, o.calls⟩
  /-- Nothing that was there at the start is a temporary. -/
  new : ∀ q ∈ o.temporaries, fs.node? q.location = none
  gone : ∀ q ∈ o.temporaries, (k.fs.contains q = true → k.fs.isRemovable q = true) →
    o.fs.contains q = false
  /-- All paths but the temporaries find what they found before, the configured ones too. -/
  untouched : ∀ loc ∉ o.temporaries.map Path.location, o.fs.node? loc = k.fs.node? loc ∧
    ∀ p node, o.fs.find p = .ok (loc, node) ↔ k.fs.find p = .ok (loc, node)
  workingDir : o.fs.workingDir = k.fs.workingDir
  removed : ∀ summary, o.result = .ok summary →
    summary.removed + o.temporaries.countP k.fs.isDirectory = o.temporaries.countP k.fs.contains
  restored : runner.IsIdle → o.fs = fs
  /-- A directory in the place of a temporary stays, with all that is in it. -/
  directory : ∀ q ∈ o.temporaries, k.fs.isDirectory q = true → o.fs.isDirectory q = true ∧
    ∀ loc, FileSystem.isWithin q.location loc = true → o.fs.node? loc = k.fs.node? loc
  /-- The outcome does not depend on whether such directories are there. -/
  indifferent : ∀ qs : List Path, (∀ q ∈ qs, q ∈ o.temporaries ∧ k.fs.isDirectory q = true) →
    (k.withFs (k.fs.removeTrees qs)).cleanUp.result = o.result ∧
      (k.withFs (k.fs.removeTrees qs)).cleanUp.fs = o.fs.removeTrees qs

/-- For every configuration, every runner and every file system, wherever the build ends. -/
theorem cleansUp_run :
    CleansUp runner fs (work env runner c fs names) (run env runner c fs names) := by
  rw [run_eq_cleanUp]
  obtain ⟨assembled, hcreated, hserves⟩ := served_work env runner c fs names
  generalize work env runner c fs names = k at hcreated hserves
  have hcleaned := Work.fs_cleanUp hcreated
  refine
    { outcome := rfl
      served := ⟨assembled, hcreated, hserves⟩
      new := hcreated.vacant
      gone := ?_
      untouched := ?_
      workingDir := ?_
      removed := fun summary hs => Work.removed_cleanUp hcreated hs
      restored := ?_
      directory := ?_
      indifferent := fun qs hqs => Work.cleanUp_removeTrees hcreated hqs }
  · intro q hq hr
    rw [hcleaned]
    exact hcreated.contains_eraseAll hq hr
  · intro loc hl
    have hkept : loc ∉ k.fs.removals k.temporaries := fun hm =>
      hl (FileSystem.mem_locations_of_mem_removals hm)
    rw [hcleaned]
    exact ⟨hcreated.node?_cleaned hkept, fun p node => hcreated.find_cleaned_iff hkept⟩
  · rw [hcleaned]
    rfl
  · intro hidle
    have hk : k.fs = assembled := hserves.fs_eq hidle
    rw [hcleaned, hk]
    exact hcreated.eraseAll_removals
  · intro q hq hd
    rw [hcleaned]
    refine ⟨hcreated.isDirectory_cleaned hq hd, fun loc hw => ?_⟩
    exact hcreated.node?_cleaned (hcreated.not_mem_removals hq hd hw)

end Build

end CompilerDriver
