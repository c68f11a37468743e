import CompilerDriver.Proofs.PathLocation
import CompilerDriver.Workspace
import Mathlib.Data.List.Dedup

/-!
# Files that are made and removed

Temporaries are made as empty files at places where nothing was, and cleaning up
takes away those that are still files. Both touch the places of the temporaries
and no others. Taking away the files that were made restores the table of the
file system entry by entry.
-/
namespace CompilerDriver

namespace FileSystem

/-- An empty file is made at an absolute path, where nothing was. -/
structure Creates (fs : FileSystem) (p : Path) (fs' : FileSystem) : Prop where
  isAbsolute : p.isAbsolute = true
  resolve : fs.resolve p = .ok p.location
  endsInSlash : p.endsInSlash = false
  vacant : fs.node? p.location = none
  eq : fs' = fs.insert p.location (.file [] false)

/-- Empty files are made at the paths, one after another. -/
inductive Created (fs : FileSystem) : List Path → FileSystem → Prop where
  | nil : Created fs [] fs
  | concat {paths : List Path} {p : Path} {mid fs' : FileSystem} : Created fs paths mid →
      mid.Creates p fs' → Created fs (paths ++ [p]) fs'

section Creation

variable {fs mid fs' : FileSystem} {p q : Path} {paths more : List Path} {loc : Location}

theorem creates_of_createNew (ha : p.isAbsolute = true) (h : fs.createNew p = .ok fs') :
    fs.Creates p fs' := by
  unfold createNew at h
  cases hr : fs.resolve p with
  | error e =>
    rw [hr] at h
    cases h
  | ok loc =>
    have hloc : loc = p.location := location_of_resolve ha hr
    rw [hr] at h
    simp only [bind, Except.bind] at h
    split at h
    · cases h
    · next hs =>
      split at h
      · cases h
      · next hn =>
        cases h
        rw [hloc] at hr hn
        have hslash : p.endsInSlash = false := by simpa using hs
        exact ⟨ha, hr, hslash, hn, by rw [hloc]⟩

theorem ne_nil_of_node?_eq_none (h : fs.node? loc = none) : loc ≠ [] := by
  rintro rfl
  cases h

theorem node?_insert (h : fs.node? loc = none) (node : Node) (other : Location) :
    (fs.insert loc node).node? other = if other = loc then some node else fs.node? other := by
  split_ifs with he
  · rw [he, node?_insert_self fs (ne_nil_of_node?_eq_none h)]
  · exact node?_insert_of_ne fs he node

theorem Creates.keepsDirectories (h : fs.Creates p fs') : fs.KeepsDirectories fs' := by
  refine ⟨fun loc hd => ?_, by rw [h.eq]; rfl⟩
  have hne : loc ≠ p.location := by
    rintro rfl
    rw [h.vacant] at hd
    cases hd
  rw [h.eq, node?_insert_of_ne fs hne, hd]

theorem Creates.node? (h : fs.Creates p fs') (loc : Location) :
    fs'.node? loc = if loc = p.location then some (.file [] false) else fs.node? loc := by
  rw [h.eq]
  exact node?_insert h.vacant _ loc

/-- No entry of the table stands for a place where nothing is. -/
theorem ne_of_mem_entries (h : fs.node? loc = none) : ∀ e ∈ fs.entries, e.1 ≠ loc := by
  have hne : loc ≠ [] := ne_nil_of_node?_eq_none h
  rw [FileSystem.node?, if_neg hne, List.lookup_eq_none_iff] at h
  intro e he heq
  have hb := h e he
  rw [heq] at hb
  simp at hb

theorem Creates.entries (h : fs.Creates p fs') :
    fs'.entries = (p.location, .file [] false) :: fs.entries := by
  have hfilter : fs.entries.filter (·.1 ≠ p.location) = fs.entries := by
    apply List.filter_eq_self.mpr
    intro e he
    simpa using ne_of_mem_entries h.vacant e he
  rw [h.eq, insert, hfilter]

namespace Created

theorem append (h : fs.Created paths mid) (h' : mid.Created more fs') :
    fs.Created (paths ++ more) fs' := by
  induction h' with
  | nil => rwa [List.append_nil]
  | concat _ hc ih =>
    rw [← List.append_assoc]
    exact ih.concat hc

theorem keepsDirectories (h : fs.Created paths fs') : fs.KeepsDirectories fs' := by
  induction h with
  | nil => exact .refl fs
  | concat _ hc ih => exact ih.trans hc.keepsDirectories

theorem isAbsolute (h : fs.Created paths fs') : ∀ q ∈ paths, q.isAbsolute = true := by
  induction h with
  | nil => simp
  | concat _ hc ih =>
    rw [List.forall_mem_append]
    exact ⟨ih, by simpa using hc.isAbsolute⟩

/-- At the paths stand the new files, and elsewhere what was there before. -/
theorem node? (h : fs.Created paths fs') (loc : Location) :
    fs'.node? loc = if loc ∈ paths.map Path.location then some (.file [] false)
      else fs.node? loc := by
  induction h with
  | nil => simp
  | concat _ hc ih =>
    rw [hc.node?, ih, List.map_append, List.map_singleton]
    simp only [List.mem_append, List.mem_singleton]
    split_ifs <;> first | rfl | tauto

theorem node?_of_mem (h : fs.Created paths fs') (hq : q ∈ paths) :
    fs'.node? q.location = some (.file [] false) := by
  rw [h.node?, if_pos (List.mem_map_of_mem hq)]

theorem node?_of_not_mem (h : fs.Created paths fs') (hl : loc ∉ paths.map Path.location) :
    fs'.node? loc = fs.node? loc := by
  rw [h.node?, if_neg hl]

/-- The places of the new files are different, and there was nothing before. -/
theorem nodup_and_vacant (h : fs.Created paths fs') :
    (paths.map Path.location).Nodup ∧ ∀ q ∈ paths, fs.node? q.location = none := by
  induction h with
  | nil => simp
  | @concat paths p mid fs' hpaths hc ih =>
    have hp : p.location ∉ paths.map Path.location := by
      intro hm
      have hvacant := hc.vacant
      rw [hpaths.node?, if_pos hm] at hvacant
      cases hvacant
    constructor
    · rw [List.map_append, List.map_singleton, List.nodup_append_comm]
      exact List.nodup_cons.mpr ⟨hp, ih.1⟩
    · rw [List.forall_mem_append]
      refine ⟨ih.2, ?_⟩
      rw [List.forall_mem_singleton, ← hpaths.node?_of_not_mem hp]
      exact hc.vacant

theorem nodup (h : fs.Created paths fs') : (paths.map Path.location).Nodup :=
  h.nodup_and_vacant.1

theorem vacant (h : fs.Created paths fs') : ∀ q ∈ paths, fs.node? q.location = none :=
  h.nodup_and_vacant.2

theorem entries (h : fs.Created paths fs') :
    fs'.entries =
      (paths.map fun q => (q.location, Node.file [] false)).reverse ++ fs.entries := by
  induction h with
  | nil => rfl
  | concat _ hc ih =>
    rw [hc.entries, ih, List.map_append, List.reverse_append]
    rfl

/-- Each of the paths finds its new file. -/
theorem find (h : fs.Created paths fs') (hq : q ∈ paths) :
    fs'.find q = .ok (q.location, .file [] false) := by
  have hresolve : fs'.resolve q = .ok q.location ∧ q.endsInSlash = false := by
    induction h with
    | nil => cases hq
    | concat hpaths hc ih =>
      rcases List.mem_append.mp hq with hq | hq
      · exact ⟨hc.keepsDirectories.resolve (ih hq).1, (ih hq).2⟩
      · rw [List.mem_singleton.mp hq]
        exact ⟨hc.keepsDirectories.resolve hc.resolve, hc.endsInSlash⟩
  exact find_eq_ok_iff.mpr ⟨hresolve.1, h.node?_of_mem hq, Or.inr hresolve.2⟩

end Created

end Creation

/-- The file system with nothing at the locations. -/
def eraseAll (fs : FileSystem) (locs : List Location) : FileSystem :=
  { fs with entries := fs.entries.filter (·.1 ∉ locs) }

/-- The path names something that cleaning up can remove. -/
def isRemovable (fs : FileSystem) (p : Path) : Bool := fs.contains p && !fs.isDirectory p

section Removal

variable {fs fs' : FileSystem} {p q : Path} {paths : List Path} {loc : Location}
  {locs : List Location} {node : Node}

theorem eraseAll_nil (fs : FileSystem) : fs.eraseAll [] = fs := by
  simp [eraseAll]

theorem eraseAll_cons (fs : FileSystem) (loc : Location) (locs : List Location) :
    fs.eraseAll (loc :: locs) = (fs.erase loc).eraseAll locs := by
  unfold eraseAll erase
  rw [List.filter_filter]
  congr 2
  funext e
  rw [← Bool.decide_and]
  exact decide_eq_decide.mpr (by rw [List.mem_cons, not_or, and_comm])

theorem node?_erase (fs : FileSystem) (hne : loc ≠ []) (other : Location) :
    (fs.erase loc).node? other = if other = loc then none else fs.node? other := by
  split_ifs with he
  · rw [he, node?_erase_self fs hne]
  · exact node?_erase_of_ne fs he

theorem node?_eraseAll (hn : [] ∉ locs) (other : Location) :
    (fs.eraseAll locs).node? other = if other ∈ locs then none else fs.node? other := by
  induction locs generalizing fs with
  | nil => rw [eraseAll_nil, if_neg (List.not_mem_nil)]
  | cons loc locs ih =>
    rw [List.mem_cons, not_or] at hn
    rw [eraseAll_cons, ih hn.2, node?_erase fs (Ne.symm hn.1)]
    simp only [List.mem_cons]
    split_ifs <;> first | rfl | tauto

/-- Where no directory is taken away, a path finds what it found before, unless that is gone. -/
theorem find_eraseAll_iff (hd : ∀ loc ∈ locs, fs.node? loc ≠ some .directory) :
    (fs.eraseAll locs).find p = .ok (loc, node) ↔ fs.find p = .ok (loc, node) ∧ loc ∉ locs := by
  have hnil : [] ∉ locs := fun hm => hd [] hm rfl
  have hfewer : (fs.eraseAll locs).KeepsDirectories fs := by
    refine ⟨fun other h => ?_, rfl⟩
    rw [node?_eraseAll hnil] at h
    split_ifs at h
    exact h
  have hmore : fs.KeepsDirectories (fs.eraseAll locs) := by
    refine ⟨fun other h => ?_, rfl⟩
    have hm : other ∉ locs := fun hm => hd other hm h
    rw [node?_eraseAll hnil, if_neg hm, h]
  simp only [find_eq_ok_iff, node?_eraseAll hnil]
  constructor
  · rintro ⟨hr, hnode, hslash⟩
    split_ifs at hnode with hm
    exact ⟨⟨hfewer.resolve hr, hnode, hslash⟩, hm⟩
  · rintro ⟨⟨hr, hnode, hslash⟩, hm⟩
    rw [if_neg hm]
    exact ⟨hmore.resolve hr, hnode, hslash⟩

theorem isRemovable_iff : fs.isRemovable p = true ↔
    ∃ loc node, fs.find p = .ok (loc, node) ∧ node ≠ .directory := by
  rw [isRemovable, Bool.and_eq_true, contains_iff, Bool.not_eq_true', ← Bool.not_eq_true,
    isDirectory_iff]
  constructor
  · rintro ⟨⟨loc, node, hf⟩, hd⟩
    refine ⟨loc, node, hf, ?_⟩
    rintro rfl
    exact hd ⟨loc, hf⟩
  · rintro ⟨loc, node, hf, hn⟩
    refine ⟨⟨loc, node, hf⟩, ?_⟩
    rintro ⟨loc', hf'⟩
    rw [hf] at hf'
    cases hf'
    exact hn rfl

/-- What cleaning up can remove stands at the location of its path. -/
theorem node?_of_isRemovable (ha : p.isAbsolute = true) (h : fs.isRemovable p = true) :
    fs.node? p.location ≠ some .directory := by
  obtain ⟨loc, node, hf, hn⟩ := isRemovable_iff.mp h
  obtain ⟨hr, hnode, -⟩ := find_eq_ok_iff.mp hf
  rw [location_of_resolve ha hr] at hnode
  rw [hnode]
  exact fun he => hn (Option.some.inj he)

theorem remove_of_isRemovable (ha : p.isAbsolute = true) (h : fs.isRemovable p = true) :
    fs.remove p = .ok (fs.erase p.location) := by
  obtain ⟨loc, node, hf, hn⟩ := isRemovable_iff.mp h
  rw [← location_of_resolve ha (find_eq_ok_iff.mp hf).1]
  unfold remove
  rw [hf]
  cases node with
  | directory => exact absurd rfl hn
  | file _ _ => rfl
  | device _ => rfl

theorem remove_of_not_isRemovable (h : fs.isRemovable p = false) :
    ∃ e, fs.remove p = .error e := by
  unfold remove
  cases hf : fs.find p with
  | error e => exact ⟨e, rfl⟩
  | ok found =>
    obtain ⟨loc, node⟩ := found
    cases node with
    | directory => exact ⟨_, rfl⟩
    | file _ _ =>
      rw [isRemovable_iff.mpr ⟨loc, _, hf, by simp⟩] at h
      cases h
    | device _ =>
      rw [isRemovable_iff.mpr ⟨loc, _, hf, by simp⟩] at h
      cases h

/-- Removing one path does not decide about another one. -/
theorem isRemovable_erase (hp : p.isAbsolute = true) (hq : q.isAbsolute = true)
    (hne : q.location ≠ p.location) (h : fs.isRemovable p = true) :
    (fs.erase p.location).isRemovable q = fs.isRemovable q := by
  have herase : fs.erase p.location = fs.eraseAll [p.location] := by
    rw [eraseAll_cons, eraseAll_nil]
  have hd : ∀ loc ∈ [p.location], fs.node? loc ≠ some .directory := by
    rw [List.forall_mem_singleton]
    exact node?_of_isRemovable hp h
  rw [Bool.eq_iff_iff, isRemovable_iff, isRemovable_iff, herase]
  constructor
  · rintro ⟨loc, node, hf, hn⟩
    exact ⟨loc, node, ((find_eraseAll_iff hd).mp hf).1, hn⟩
  · rintro ⟨loc, node, hf, hn⟩
    refine ⟨loc, node, (find_eraseAll_iff hd).mpr ⟨hf, ?_⟩, hn⟩
    rw [List.mem_singleton, location_of_resolve hq (find_eq_ok_iff.mp hf).1]
    exact hne

/-- After a file is gone, all but the paths that led to it can be removed as before. -/
theorem isRemovable_erase_iff (hp : p.isAbsolute = true) (hq : q.isAbsolute = true)
    (h : fs.isRemovable p = true) : (fs.erase p.location).isRemovable q = true ↔
      fs.isRemovable q = true ∧ q.location ≠ p.location := by
  by_cases he : q.location = p.location
  · have hne : p.location ≠ [] := by
      intro hnil
      apply node?_of_isRemovable hp h
      rw [hnil]
      rfl
    constructor
    · intro hr
      obtain ⟨loc, node, hf, -⟩ := isRemovable_iff.mp hr
      obtain ⟨hresolve, hnode, -⟩ := find_eq_ok_iff.mp hf
      rw [location_of_resolve hq hresolve, he, node?_erase_self fs hne] at hnode
      cases hnode
    · exact fun hr => absurd he hr.2
  · rw [isRemovable_erase hp hq he h]
    exact (and_iff_left he).symm

/-- What is gone need not be taken away again. -/
theorem eraseAll_filter_ne (fs : FileSystem) (loc : Location) (locs : List Location) :
    (fs.erase loc).eraseAll (locs.filter (· ≠ loc)) = (fs.erase loc).eraseAll locs := by
  unfold eraseAll erase
  congr 1
  apply List.filter_congr
  intro e he
  have hne : e.1 ≠ loc := by simpa using (List.mem_filter.mp he).2
  simp [hne]

end Removal

end FileSystem

namespace Workspace

open FileSystem

theorem length_dedup_cons (loc : Location) (locs : List Location) :
    (loc :: locs).dedup.length = (locs.filter (· ≠ loc)).dedup.length + 1 := by
  have hperm : (loc :: locs).dedup.Perm (loc :: (locs.filter (· ≠ loc)).dedup) := by
    apply (List.perm_ext_iff_of_nodup (List.nodup_dedup _) _).mpr
    · intro other
      simp only [List.mem_dedup, List.mem_cons, List.mem_filter]
      by_cases he : other = loc <;> simp [he]
    · exact List.nodup_cons.mpr ⟨by simp, List.nodup_dedup _⟩
  rw [hperm.length_eq, List.length_cons]

/-- Cleaning up removes the registered files that are there, counts each of them once, also where
several paths lead to it, and does nothing else. -/
theorem removeAll_eq_dedup {paths : List Path} {fs : FileSystem}
    (ha : ∀ q ∈ paths, q.isAbsolute = true) :
    removeAll paths fs = (((paths.filter fs.isRemovable).map Path.location).dedup.length,
      fs.eraseAll ((paths.filter fs.isRemovable).map Path.location)) := by
  induction paths generalizing fs with
  | nil => rw [removeAll, List.filter_nil, List.map_nil, eraseAll_nil, List.dedup_nil,
      List.length_nil]
  | cons p rest ih =>
    obtain ⟨hp, hrest⟩ := List.forall_mem_cons.mp ha
    cases hr : fs.isRemovable p with
    | false =>
      obtain ⟨e, he⟩ := remove_of_not_isRemovable hr
      simp only [removeAll, he]
      rw [ih hrest, List.filter_cons_of_neg (by simp [hr])]
    | true =>
      have hlater : (rest.filter (fs.erase p.location).isRemovable).map Path.location =
          ((rest.filter fs.isRemovable).map Path.location).filter (· ≠ p.location) := by
        rw [List.filter_map, List.filter_filter]
        congr 1
        apply List.filter_congr
        intro q hq
        rw [Bool.eq_iff_iff, isRemovable_erase_iff hp (hrest q hq) hr]
        simp [and_comm]
      simp only [removeAll, remove_of_isRemovable hp hr]
      rw [ih hrest, hlater, eraseAll_filter_ne, List.filter_cons_of_pos (by simp [hr]),
        List.map_cons, eraseAll_cons, length_dedup_cons]

/-- Where the paths lead to different places, their files are counted one by one. -/
theorem removeAll_eq {paths : List Path} {fs : FileSystem}
    (ha : ∀ q ∈ paths, q.isAbsolute = true) (hn : (paths.map Path.location).Nodup) :
    removeAll paths fs = (paths.countP fs.isRemovable,
      fs.eraseAll ((paths.filter fs.isRemovable).map Path.location)) := by
  have hnodup : ((paths.filter fs.isRemovable).map Path.location).Nodup :=
    hn.sublist (List.filter_sublist.map Path.location)
  rw [removeAll_eq_dedup ha, hnodup.dedup, List.length_map, ← List.countP_eq_length_filter]

end Workspace

end CompilerDriver
