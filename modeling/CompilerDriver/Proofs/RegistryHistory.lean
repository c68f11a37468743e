import CompilerDriver.Proofs.CleanUp
import Mathlib.Data.List.DropRight

/-!
# The registry through any history

Temporaries are made, all of them are cleaned up, or the registry is given up
for a new one, and others write and remove files meanwhile. In any order of such
steps the registry lists what was granted since it was last emptied. To empty it
removes the files that are registered and still there, and nothing else, however
the others have treated them.
-/
namespace CompilerDriver

/-- What others do to the file system. What the system refuses to them does not happen. -/
inductive Interference where
  | write (path : Path) (content : Bytes)
  | remove (path : Path)
  /-- A directory takes the place of a file. -/
  | replace (path : Path)
  deriving DecidableEq, Repr

namespace Interference

def apply (i : Interference) (fs : FileSystem) : FileSystem :=
  match i with
  | write p content => (fs.write p content).toOption.getD fs
  | remove p => (fs.remove p).toOption.getD fs
  | replace p =>
    let cleared := (fs.remove p).toOption.getD fs
    (cleared.makeDir p).toOption.getD cleared

/-- The file at the location is removed. -/
def Takes (i : Interference) (fs : FileSystem) (loc : Location) : Prop :=
  ∃ p node, i = remove p ∧ fs.find p = .ok (loc, node) ∧ node ≠ .directory

end Interference

/-- A step in the life of a registry, or between two of them. -/
inductive RegistryStep where
  | allocate (name extension : String)
  | cleanup
  /-- The registry is given up, and a new one takes its place. -/
  | reopen (dir : Path)
  | outside (i : Interference)
  deriving DecidableEq, Repr

namespace RegistryStep

def next (s : RegistryStep) (w : Workspace) : Workspace :=
  match s with
  | allocate name extension => (w.allocate name extension).2
  | cleanup => w.cleanup.2
  | reopen dir => w.reopen dir
  | outside i => { w with fs := i.apply w.fs }

/-- The temporary that the step is granted. -/
def granted? (s : RegistryStep) (w : Workspace) : Option Path :=
  match s with
  | allocate name extension => (w.allocate name extension).1.toOption
  | _ => none

def empties : RegistryStep → Bool
  | cleanup | reopen _ => true
  | allocate .. | outside _ => false

end RegistryStep

namespace Workspace

def after (w : Workspace) (steps : List RegistryStep) : Workspace :=
  steps.foldl (fun w s => s.next w) w

/-- The steps, each with what it is granted. -/
def record : Workspace → List RegistryStep → List (RegistryStep × Option Path)
  | _, [] => []
  | w, s :: rest => (s, s.granted? w) :: record (s.next w) rest

/-- What has been granted since the registry was last emptied, in order. -/
def grantedSinceEmptied (record : List (RegistryStep × Option Path)) : List Path :=
  (record.rtakeWhile fun e => !e.1.empties).filterMap (·.2)

/-- Nobody has removed a registered file since the registry was last emptied. -/
def Undisturbed (w : Workspace) (steps : List RegistryStep) : Prop :=
  ∀ before i after, steps = before ++ .outside i :: after → (∀ s ∈ after, s.empties = false) →
    ∀ q ∈ (w.after before).arena.paths, ¬i.Takes (w.after before).fs q.location

theorem after_concat (w : Workspace) (steps : List RegistryStep) (s : RegistryStep) :
    w.after (steps ++ [s]) = s.next (w.after steps) := by
  rw [after, List.foldl_append]
  rfl

theorem record_concat (w : Workspace) (steps : List RegistryStep) (s : RegistryStep) :
    w.record (steps ++ [s]) = w.record steps ++ [(s, s.granted? (w.after steps))] := by
  induction steps generalizing w with
  | nil => rfl
  | cons first rest ih =>
    rw [List.cons_append, record, record, ih]
    rfl

end Workspace

namespace FileSystem

variable {fs fs' : FileSystem} {p : Path} {loc other : Location} {node : Node}

theorem isSome_node?_insert (h : (fs.node? other).isSome = true) :
    ((fs.insert loc node).node? other).isSome = true := by
  by_cases he : other = loc
  · subst he
    by_cases hn : other = []
    · rw [hn]
      rfl
    · rw [node?_insert_self fs hn]
      rfl
  · rwa [node?_insert_of_ne fs he]

/-- Writing leaves something where something was. -/
theorem isSome_node?_write {content : Bytes} (hw : fs.write p content = .ok fs')
    (h : (fs.node? other).isSome = true) : (fs'.node? other).isSome = true := by
  unfold write update at hw
  cases hr : fs.resolve p with
  | error e =>
    rw [hr] at hw
    cases hw
  | ok loc =>
    rw [hr] at hw
    simp only [bind, Except.bind] at hw
    split at hw
    · cases hw
    · split at hw
      · cases hw
      · cases hw
        exact h
      · cases hw
      · cases hw
        exact isSome_node?_insert h
      · cases hw
        exact isSome_node?_insert h

/-- What is removed was found, and was no directory. -/
theorem remove_eq_ok (h : fs.remove p = .ok fs') :
    ∃ loc node, fs.find p = .ok (loc, node) ∧ node ≠ .directory ∧ fs' = fs.erase loc := by
  unfold remove at h
  cases hf : fs.find p with
  | error e =>
    rw [hf] at h
    cases h
  | ok found =>
    obtain ⟨loc, node⟩ := found
    rw [hf] at h
    cases node with
    | directory => cases h
    | file content executable =>
      cases h
      exact ⟨loc, _, rfl, by simp, rfl⟩
    | device device =>
      cases h
      exact ⟨loc, _, rfl, by simp, rfl⟩

theorem makeDir_eq_ok (hr : fs.resolve p = .ok loc) (hn : fs.node? loc = none) :
    fs.makeDir p = .ok (fs.insert loc .directory) := by
  unfold makeDir
  rw [hr]
  simp only [bind, Except.bind, hn]

/-- Where a file was, a directory can be made. -/
theorem makeDir_erase (hf : fs.find p = .ok (loc, node)) (hd : node ≠ .directory) :
    (fs.erase loc).makeDir p = .ok ((fs.erase loc).insert loc .directory) := by
  obtain ⟨hr, hnode, -⟩ := find_eq_ok_iff.mp hf
  have hne : loc ≠ [] := by
    rintro rfl
    cases hnode
    exact hd rfl
  have hkeeps : fs.KeepsDirectories (fs.erase loc) := by
    refine ⟨fun other ho => ?_, rfl⟩
    have hother : other ≠ loc := by
      rintro rfl
      rw [hnode] at ho
      exact hd (Option.some.inj ho)
    rw [node?_erase_of_ne fs hother, ho]
  exact makeDir_eq_ok (hkeeps.resolve hr) (node?_erase_self fs hne)

end FileSystem

open FileSystem

/-- Others take away what is at a location only by removing it. -/
theorem Interference.isSome_node?_apply {i : Interference} {fs : FileSystem} {loc : Location}
    (hi : ¬i.Takes fs loc) (h : (fs.node? loc).isSome = true) :
    ((i.apply fs).node? loc).isSome = true := by
  unfold apply
  cases i with
  | write p content =>
    dsimp only
    cases hw : fs.write p content with
    | error e => exact h
    | ok fs' => exact isSome_node?_write hw h
  | remove p =>
    dsimp only
    cases hr : fs.remove p with
    | error e => exact h
    | ok fs' =>
      obtain ⟨place, node, hf, hd, rfl⟩ := remove_eq_ok hr
      have hne : loc ≠ place := fun he => hi ⟨p, node, rfl, he ▸ hf, hd⟩
      exact (node?_erase_of_ne fs hne).symm ▸ h
  | replace p =>
    dsimp only
    cases hr : fs.remove p with
    | ok fs' =>
      obtain ⟨place, node, hf, hd, rfl⟩ := remove_eq_ok hr
      rw [Except.toOption, Option.getD_some, makeDir_erase hf hd]
      by_cases he : loc = place
      · subst he
        by_cases hn : loc = []
        · rw [hn]
          rfl
        · exact (node?_insert_self _ hn _).symm ▸ rfl
      · exact isSome_node?_insert ((node?_erase_of_ne fs he).symm ▸ h)
    | error e =>
      rw [Except.toOption, Option.getD_none]
      unfold makeDir
      cases fs.resolve p with
      | error e => exact h
      | ok place =>
        simp only [bind, Except.bind]
        cases fs.node? place with
        | some node => exact h
        | none => exact isSome_node?_insert h

namespace Workspace

variable {w : Workspace} {q : Path}

/-- What emptying the registry does, whoever has treated the registered files in what way. -/
structure EmptiesExactly (w : Workspace) : Prop where
  /-- The entries of the file system stay as they are, but for the registered files. -/
  fs : w.cleanup.2.fs = w.fs.eraseAll (w.fs.removals w.arena.paths)
  /-- Every path finds what it found before, unless that was one of these files. -/
  find : ∀ p loc node, w.cleanup.2.fs.find p = .ok (loc, node) ↔
    w.fs.find p = .ok (loc, node) ∧ loc ∉ w.fs.removals w.arena.paths
  gone : ∀ q ∈ w.arena.paths, w.fs.isRemovable q = true → w.cleanup.2.fs.contains q = false
  directory : ∀ p, w.fs.isDirectory p = true → w.cleanup.2.fs.isDirectory p = true
  arena : w.cleanup.2.arena = { dir := w.arena.dir }
  /-- A file is counted once, also where it has come to be registered twice. -/
  counted : w.cleanup.1 = (w.fs.removals w.arena.paths).dedup.length
  again : w.cleanup.2.cleanup = (0, w.cleanup.2)
  /-- To give the registry up has the same effect. -/
  reopened : ∀ dir, (w.reopen dir).fs = w.cleanup.2.fs ∧ (w.reopen dir).arena = { dir := dir }

theorem emptiesExactly (ha : ∀ q ∈ w.arena.paths, q.isAbsolute = true) : w.EmptiesExactly := by
  have hcleanup : w.cleanup = ((removeAll w.arena.paths w.fs).1,
      { w with
        fs := (removeAll w.arena.paths w.fs).2
        arena := { w.arena with paths := [] } }) := rfl
  have hfs : w.cleanup.2.fs = w.fs.eraseAll (w.fs.removals w.arena.paths) := by
    rw [hcleanup, removeAll_eq_dedup ha]
    rfl
  have hfind : ∀ p loc node, w.cleanup.2.fs.find p = .ok (loc, node) ↔
      w.fs.find p = .ok (loc, node) ∧ loc ∉ w.fs.removals w.arena.paths := by
    intro p loc node
    rw [hfs]
    exact find_eraseAll_iff (node?_of_mem_removals ha)
  refine
    { fs := hfs
      find := hfind
      gone := fun q hq hr => ?_
      directory := fun p hd => ?_
      arena := rfl
      counted := ?_
      again := rfl
      reopened := fun dir => ⟨rfl, rfl⟩ }
  · rw [← Bool.not_eq_true, contains_iff]
    rintro ⟨loc, node, hf⟩
    obtain ⟨hold, hm⟩ := (hfind q loc node).mp hf
    have hloc : loc = q.location := location_of_resolve (ha q hq) (find_eq_ok_iff.mp hold).1
    exact hm (mem_removals_iff.mpr ⟨q, hq, hr, hloc.symm⟩)
  · obtain ⟨loc, hf⟩ := isDirectory_iff.mp hd
    refine isDirectory_iff.mpr ⟨loc, (hfind p loc .directory).mpr ⟨hf, fun hm => ?_⟩⟩
    exact node?_of_mem_removals ha loc hm (find_eq_ok_iff.mp hf).2.1
  · rw [hcleanup, removeAll_eq_dedup ha]
    rfl

/-- A grant is a file that was not there, and it is registered last. -/
theorem creates_of_allocate {name extension : String} {path : Path}
    (h : (w.allocate name extension).1 = .ok path) :
    w.fs.Creates path (w.allocate name extension).2.fs := by
  unfold allocate at h ⊢
  split at h
  · next path' fs names hc =>
    cases h
    exact NameSupply.creates_of_create hc
  · cases h

end Workspace

namespace RegistryStep

variable {w : Workspace} {s : RegistryStep}

/-- The registry is emptied, or it grows by what is granted. -/
theorem paths_next (s : RegistryStep) (w : Workspace) :
    (s.next w).arena.paths =
      if s.empties then [] else w.arena.paths ++ (s.granted? w).toList := by
  cases s with
  | allocate name extension =>
    have hgrow : ((w.allocate name extension).2).arena.paths =
        w.arena.paths ++ (w.allocate name extension).1.toOption.toList := by
      cases h : (w.allocate name extension).1 with
      | ok path => exact Workspace.paths_allocate_of_ok h
      | error e =>
        rw [(Workspace.unchanged_of_allocate_error h).1]
        exact (List.append_nil _).symm
    exact hgrow
  | cleanup => rfl
  | reopen dir => rfl
  | outside i => exact (List.append_nil _).symm

/-- Registered paths are absolute, whatever the step. -/
theorem isAbsolute_next (h : ∀ q ∈ w.arena.paths, q.isAbsolute = true) :
    ∀ q ∈ (s.next w).arena.paths, q.isAbsolute = true := by
  rw [s.paths_next]
  split_ifs
  · simp
  · rw [List.forall_mem_append]
    refine ⟨h, fun q hq => ?_⟩
    cases s with
    | allocate name extension =>
      have hgrant : (w.allocate name extension).1.toOption = some q := Option.mem_toList.mp hq
      cases ha : (w.allocate name extension).1 with
      | error e =>
        rw [ha] at hgrant
        cases hgrant
      | ok path =>
        rw [ha] at hgrant
        cases hgrant
        exact (Workspace.creates_of_allocate ha).isAbsolute
    | _ => cases hq

end RegistryStep

namespace Workspace

/-- The registered paths lead to different places, and there is something at each of them. -/
structure Occupies (w : Workspace) : Prop where
  nodup : (w.arena.paths.map Path.location).Nodup
  occupied : ∀ q ∈ w.arena.paths, (w.fs.node? q.location).isSome = true

variable {w : Workspace} {s : RegistryStep}

theorem occupies_of_paths_eq_nil (h : w.arena.paths = []) : w.Occupies := by
  constructor <;> simp [h]

/-- Something is left at every registered place, unless others remove it. A new temporary is made
where nothing was. -/
theorem Occupies.next (h : w.Occupies)
    (hs : ∀ i, s = .outside i → ∀ q ∈ w.arena.paths, ¬i.Takes w.fs q.location) :
    (s.next w).Occupies := by
  cases s with
  | allocate name extension =>
    rw [RegistryStep.next]
    cases ha : (w.allocate name extension).1 with
    | error e =>
      obtain ⟨harena, hfs⟩ := unchanged_of_allocate_error ha
      exact ⟨harena.symm ▸ h.nodup, by rw [harena, hfs]; exact h.occupied⟩
    | ok path =>
      have hcreates := creates_of_allocate ha
      have hpaths := paths_allocate_of_ok ha
      have hnew : path.location ∉ w.arena.paths.map Path.location := by
        intro hm
        obtain ⟨q, hq, he⟩ := List.mem_map.mp hm
        have hsome := h.occupied q hq
        rw [he, hcreates.vacant] at hsome
        cases hsome
      constructor
      · rw [hpaths, List.map_append, List.map_singleton, List.nodup_append_comm]
        exact List.nodup_cons.mpr ⟨hnew, h.nodup⟩
      · intro q hq
        rw [hcreates.node?]
        split_ifs with he
        · rfl
        · rw [hpaths, List.mem_append, List.mem_singleton] at hq
          rcases hq with hq | rfl
          · exact h.occupied q hq
          · exact absurd rfl he
  | cleanup => exact occupies_of_paths_eq_nil rfl
  | reopen dir => exact occupies_of_paths_eq_nil rfl
  | outside i =>
    exact ⟨h.nodup, fun q hq => Interference.isSome_node?_apply (hs i rfl q hq) (h.occupied q hq)⟩

theorem isAbsolute_after (hw : w.arena.paths = []) (steps : List RegistryStep) :
    ∀ q ∈ (w.after steps).arena.paths, q.isAbsolute = true := by
  induction steps using List.reverseRecOn with
  | nil => simp [after, hw]
  | append_singleton steps s ih =>
    rw [after_concat]
    exact RegistryStep.isAbsolute_next ih

theorem paths_after (hw : w.arena.paths = []) (steps : List RegistryStep) :
    (w.after steps).arena.paths = grantedSinceEmptied (w.record steps) := by
  induction steps using List.reverseRecOn with
  | nil => exact hw
  | append_singleton steps s ih =>
    rw [after_concat, s.paths_next, record_concat, grantedSinceEmptied, List.rtakeWhile_concat]
    cases s.empties with
    | true => rfl
    | false =>
      rw [Bool.not_false, if_pos rfl, List.filterMap_append, ← grantedSinceEmptied, ← ih]
      cases s.granted? (w.after steps) <;> rfl

/-- The last step empties the registry, or nothing was disturbed before it either. -/
theorem Undisturbed.init {steps : List RegistryStep} (h : w.Undisturbed (steps ++ [s]))
    (hs : s.empties = false) : w.Undisturbed steps := by
  intro before i after hsteps hafter
  apply h before i (after ++ [s])
  · rw [hsteps, List.append_assoc, List.cons_append]
  · rw [List.forall_mem_append]
    exact ⟨hafter, by simpa using hs⟩

theorem occupies_after (hw : w.arena.paths = []) {steps : List RegistryStep}
    (h : w.Undisturbed steps) : (w.after steps).Occupies := by
  induction steps using List.reverseRecOn with
  | nil => exact occupies_of_paths_eq_nil hw
  | append_singleton steps s ih =>
    rw [after_concat]
    cases hs : s.empties with
    | true =>
      apply occupies_of_paths_eq_nil
      rw [s.paths_next, hs, if_pos rfl]
    | false =>
      refine (ih (h.init hs)).next fun i hi => ?_
      exact h steps i [] (by rw [hi]) (by simp)

/-- What a registry is after some steps, from when it was opened. -/
structure KeepsRegistry (start : Workspace) (steps : List RegistryStep) : Prop where
  registered : (start.after steps).arena.paths = grantedSinceEmptied (start.record steps)
  /-- A temporary is made as an empty file where nothing was. -/
  granted : ∀ name extension path, ((start.after steps).allocate name extension).1 = .ok path →
    (start.after steps).fs.Creates path ((start.after steps).allocate name extension).2.fs
  refused : ∀ name extension e, ((start.after steps).allocate name extension).1 = .error e →
    ((start.after steps).allocate name extension).2.arena = (start.after steps).arena ∧
      ((start.after steps).allocate name extension).2.fs = (start.after steps).fs
  /-- As long as nobody else removes them, the registered paths are different, and so are the
  places they lead to. -/
  distinct : start.Undisturbed steps → (start.after steps).arena.paths.Nodup ∧
    ((start.after steps).arena.paths.map Path.location).Nodup
  /-- Cleaning up then counts each path that leads to a file. -/
  countP : start.Undisturbed steps → (start.after steps).cleanup.1 =
    (start.after steps).arena.paths.countP (start.after steps).fs.isRemovable
  empties : (start.after steps).EmptiesExactly

/-- For a registry that is opened in any directory of any file system, and any steps after that. -/
theorem keepsRegistry (fs : FileSystem) (names : NameSupply) (dir : Path)
    (steps : List RegistryStep) : KeepsRegistry ⟨fs, names, { dir := dir }⟩ steps := by
  have hnew : (Workspace.mk fs names { dir := dir }).arena.paths = [] := rfl
  have habsolute := isAbsolute_after hnew steps
  refine
    { registered := paths_after hnew steps
      granted := fun name extension path h => creates_of_allocate h
      refused := fun name extension e h => unchanged_of_allocate_error h
      distinct := fun h => ?_
      countP := fun h => ?_
      empties := emptiesExactly habsolute }
  · have hnodup := (occupies_after hnew h).nodup
    exact ⟨hnodup.of_map, hnodup⟩
  · exact congrArg Prod.fst (removeAll_eq habsolute (occupies_after hnew h).nodup)

/-- One of two temporaries is removed by someone else, so only the other one is removed and counted
later. -/
example :
    let start : Workspace := ⟨{ entries := [([Utf8.encode "tmp"], .directory)] }, .ofSeed 0,
      { dir := .ofString "/tmp" }⟩
    let w := start.after [.allocate "a" ".ll", .allocate "b" ".ll",
      .outside (.remove (.ofString "/tmp/ac00000000-a.ll"))]
    w.arena.paths.length = 2 ∧ w.cleanup.1 = 1 ∧ w.cleanup.2.fs = start.fs := by
  decide +kernel

end Workspace

end CompilerDriver
