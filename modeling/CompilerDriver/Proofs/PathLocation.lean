import CompilerDriver.FileSystem
import Mathlib.Data.List.Basic

/-!
# Where absolute paths lead

There are no links, so an absolute path that leads anywhere leads to one
location, whatever else the file system holds. Which paths lead somewhere
depends on the directories alone: it stays so while directories are kept, and
files that come and go elsewhere do not change what a path finds.
-/
namespace CompilerDriver

namespace Path

/-- One piece of a path further, whatever stands there. -/
def follow (loc : Location) (piece : Bytes) : Location :=
  if piece = [dot] then loc
  else if piece = [dot, dot] then loc.dropLast
  else loc ++ [piece]

/-- The location that an absolute path leads to. -/
def location (p : Path) : Location := p.pieces.foldl follow []

end Path

namespace FileSystem

/-- The other file system has the directories of this one, and the same working directory. -/
structure KeepsDirectories (fs fs' : FileSystem) : Prop where
  node? : ∀ loc, fs.node? loc = some .directory → fs'.node? loc = some .directory
  workingDir : fs'.workingDir = fs.workingDir

theorem KeepsDirectories.refl (fs : FileSystem) : fs.KeepsDirectories fs :=
  ⟨fun _ h => h, rfl⟩

theorem KeepsDirectories.trans {fs mid fs' : FileSystem} (h : fs.KeepsDirectories mid)
    (h' : mid.KeepsDirectories fs') : fs.KeepsDirectories fs' :=
  ⟨fun loc hd => h'.node? loc (h.node? loc hd), h'.workingDir.trans h.workingDir⟩

section Resolve

variable {fs fs' : FileSystem} {loc loc' : Location} {piece : Bytes} {p : Path} {node : Node}

theorem step_eq_ok (h : fs.step loc piece = .ok loc') :
    fs.node? loc = some .directory ∧ loc' = Path.follow loc piece := by
  unfold step at h
  unfold Path.follow
  split at h
  · cases h
  · cases h
  · cases h
  · next hd =>
    refine ⟨hd, ?_⟩
    split_ifs at h ⊢
    all_goals
      cases h
      rfl

theorem step_of_directory (hd : fs'.node? loc = some .directory)
    (h : fs.step loc piece = .ok loc') : fs'.step loc piece = .ok loc' := by
  have hfs : fs.node? loc = some .directory := (step_eq_ok h).1
  unfold step at h ⊢
  rw [hfs] at h
  rw [hd]
  exact h

theorem foldlM_step_eq_ok {pieces : List Bytes} (h : pieces.foldlM fs.step loc = .ok loc') :
    loc' = pieces.foldl Path.follow loc := by
  induction pieces generalizing loc with
  | nil =>
    cases h
    rfl
  | cons piece rest ih =>
    rw [List.foldlM_cons] at h
    cases hs : fs.step loc piece with
    | error e =>
      rw [hs] at h
      cases h
    | ok next =>
      rw [hs] at h
      have hnext : next = Path.follow loc piece := (step_eq_ok hs).2
      rw [List.foldl_cons, ← hnext]
      exact ih h

/-- On the way to a location every place is a directory. -/
theorem directory_of_foldlM_step {before after : List Bytes} (hne : after ≠ [])
    (h : (before ++ after).foldlM fs.step loc = .ok loc') :
    fs.node? (before.foldl Path.follow loc) = some .directory := by
  rw [List.foldlM_append] at h
  cases hb : before.foldlM fs.step loc with
  | error e =>
    rw [hb] at h
    cases h
  | ok mid =>
    rw [hb] at h
    have hmid : mid = before.foldl Path.follow loc := foldlM_step_eq_ok hb
    cases after with
    | nil => exact absurd rfl hne
    | cons piece rest =>
      change (piece :: rest).foldlM fs.step mid = _ at h
      rw [List.foldlM_cons] at h
      cases hs : fs.step mid piece with
      | error e =>
        rw [hs] at h
        cases h
      | ok next =>
        rw [← hmid]
        exact (step_eq_ok hs).1

theorem foldlM_step_of_directories {pieces : List Bytes}
    (hd : ∀ before after, pieces = before ++ after → after ≠ [] →
      fs'.node? (before.foldl Path.follow loc) = some .directory)
    (h : pieces.foldlM fs.step loc = .ok loc') : pieces.foldlM fs'.step loc = .ok loc' := by
  induction pieces generalizing loc with
  | nil => exact h
  | cons piece rest ih =>
    rw [List.foldlM_cons] at h ⊢
    cases hs : fs.step loc piece with
    | error e =>
      rw [hs] at h
      cases h
    | ok next =>
      rw [hs] at h
      have hloc : fs'.node? loc = some .directory :=
        hd [] (piece :: rest) rfl (List.cons_ne_nil _ _)
      have hnext : next = Path.follow loc piece := (step_eq_ok hs).2
      rw [step_of_directory hloc hs]
      refine ih (fun before after hrest hne => ?_) h
      have hstep := hd (piece :: before) after (by rw [hrest]; rfl) hne
      rwa [List.foldl_cons, ← hnext] at hstep

/-- The location where a path starts. -/
def origin (fs : FileSystem) (p : Path) : Location :=
  if p.isAbsolute then [] else fs.workingDir

/-- The location that a path leads to, if it leads anywhere. -/
def place (fs : FileSystem) (p : Path) : Location := p.pieces.foldl Path.follow (fs.origin p)

theorem place_of_isAbsolute (fs : FileSystem) (ha : p.isAbsolute = true) :
    fs.place p = p.location := by
  rw [place, origin, if_pos ha, Path.location]

theorem KeepsDirectories.origin_eq (hk : fs.KeepsDirectories fs') (p : Path) :
    fs'.origin p = fs.origin p := by
  rw [origin, origin, hk.workingDir]

theorem resolve_eq_ok_iff : fs.resolve p = .ok loc ↔
    ((0 : UInt8) ∉ p.bytes ∧ p.isEmpty = false ∧ p.bytes.length ≤ pathLimit) ∧
      p.pieces.foldlM fs.step (fs.origin p) = .ok loc := by
  unfold resolve origin
  by_cases hz : (0 : UInt8) ∈ p.bytes
  · simp [hz]
  · by_cases he : p.isEmpty = true
    · simp [hz, he]
    · by_cases hl : pathLimit < p.bytes.length
      · simp only [hz, if_false, he, hl, if_true, reduceCtorEq, false_iff, not_and]
        omega
      · simp only [hz, if_false, he, hl, not_false_eq_true, true_and]
        have hle : p.bytes.length ≤ pathLimit := by omega
        simp [hle]

theorem place_of_resolve (h : fs.resolve p = .ok loc) : loc = fs.place p :=
  foldlM_step_eq_ok (resolve_eq_ok_iff.mp h).2

/-- An absolute path leads to its location or nowhere. -/
theorem location_of_resolve (ha : p.isAbsolute = true) (h : fs.resolve p = .ok loc) :
    loc = p.location :=
  (place_of_resolve h).trans (fs.place_of_isAbsolute ha)

theorem KeepsDirectories.resolve (hk : fs.KeepsDirectories fs') (h : fs.resolve p = .ok loc) :
    fs'.resolve p = .ok loc := by
  obtain ⟨hp, hfold⟩ := resolve_eq_ok_iff.mp h
  refine resolve_eq_ok_iff.mpr ⟨hp, ?_⟩
  rw [hk.origin_eq]
  apply foldlM_step_of_directories _ hfold
  intro before after hpieces hne
  rw [hpieces] at hfold
  exact hk.node? _ (directory_of_foldlM_step hne hfold)

theorem find_eq_ok_iff : fs.find p = .ok (loc, node) ↔
    fs.resolve p = .ok loc ∧ fs.node? loc = some node ∧
      (node = .directory ∨ p.endsInSlash = false) := by
  unfold find
  cases hr : fs.resolve p with
  | error e => simp [bind, Except.bind]
  | ok place =>
    simp only [bind, Except.bind]
    rcases hn : fs.node? place with _ | _ | _ | _
    · have hcontra : fs.node? loc = some node → place ≠ loc := by
        rintro h rfl
        rw [hn] at h
        cases h
      simp only [reduceCtorEq, Except.ok.injEq, false_iff, not_and]
      intro hloc h
      exact absurd hloc (hcontra h)
    · constructor
      · intro h
        cases h
        exact ⟨rfl, hn, Or.inl rfl⟩
      · rintro ⟨h, hnode, -⟩
        cases h
        rw [hn] at hnode
        cases hnode
        rfl
    all_goals
      by_cases hs : p.endsInSlash = true
      · simp only [hs, if_true, reduceCtorEq, Except.ok.injEq, or_false, false_iff, not_and]
        rintro rfl hnode rfl
        rw [hn] at hnode
        cases hnode
      · simp only [hs, Bool.false_eq_true, if_false, Except.ok.injEq, Prod.mk.injEq, or_true,
          and_true]
        constructor
        · rintro ⟨rfl, rfl⟩
          exact ⟨rfl, hn⟩
        · rintro ⟨rfl, hnode⟩
          rw [hn] at hnode
          exact ⟨rfl, Option.some.inj hnode⟩

theorem contains_iff : fs.contains p = true ↔ ∃ loc node, fs.find p = .ok (loc, node) := by
  unfold contains
  split
  · next found h => exact ⟨fun _ => ⟨_, _, h⟩, fun _ => rfl⟩
  · next e h => simp [h]

theorem isDirectory_iff : fs.isDirectory p = true ↔ ∃ loc, fs.find p = .ok (loc, .directory) := by
  unfold isDirectory
  split
  · next found h => exact ⟨fun _ => ⟨_, h⟩, fun _ => rfl⟩
  · next h =>
    constructor
    · intro hf
      cases hf
    · rintro ⟨loc, hl⟩
      exact absurd hl (h loc)

end Resolve

end FileSystem

end CompilerDriver
