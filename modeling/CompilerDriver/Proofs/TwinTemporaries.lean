import CompilerDriver.Proofs.WorkspaceGrowth

/-!
# Temporaries and their tokens

What an allocation gives is told by its request, the directory of temporaries and
the working directory, up to the token that is drawn. So the temporaries of two
runs from one place differ in their tokens only, and are twins. The name of each
of them opens with `ac`. What lies elsewhere is found, or not found, as if they
were not there.
-/
namespace CompilerDriver

namespace Request

/-- The path of a temporary for the request, by its token. -/
def path (r : Request) (fs : FileSystem) (dir : Path) (t : Token) : Path :=
  fs.absolute (t.path dir r.name r.extension)

/-- The path is that of a temporary for the request in the directory. -/
def AnswersIn (fs : FileSystem) (dir : Path) (r : Request) (q : Path) : Prop :=
  ∃ t : Token, q = r.path fs dir t

theorem answersIn_congr {fs fs' : FileSystem} (h : fs'.workingDir = fs.workingDir) (dir : Path) :
    AnswersIn fs' dir = AnswersIn fs dir := by
  unfold AnswersIn path FileSystem.absolute
  rw [h]

theorem AnswersIn.answers {fs : FileSystem} {dir q : Path} {r : Request}
    (h : r.AnswersIn fs dir q) : r.Answers q := by
  obtain ⟨t, ht⟩ := h
  exact ⟨fs, t, dir, ht⟩

end Request

/-- A location that a build can choose for a temporary, by the source that it stems from, its form,
and the token. -/
def TemporaryPlace (fs : FileSystem) (dir : Path) (loc : Location) : Prop :=
  ∃ (source : Path) (f : Format) (t : Token),
    loc = (Request.path ⟨CompilationUnit.nameOf source, f.extension⟩ fs dir t).location

/-- Two temporaries for one request in one directory. They differ in their tokens only. -/
def Twins (fs : FileSystem) (dir q q' : Path) : Prop :=
  ∃ (r : Request) (t t' : Token), q = r.path fs dir t ∧ q' = r.path fs dir t'

namespace Workspace

variable {w w' : Workspace}

theorem answersIn_of_allocate {r : Request} {q : Path}
    (h : w.allocate r.name r.extension = (.ok q, w')) : r.AnswersIn w.fs w.arena.dir q := by
  unfold allocate at h
  split at h
  · next hc =>
    cases h
    exact NameSupply.exists_token_of_create hc
  · cases h

theorem Grows.answersIn (h : w.Grows w') :
    Request.AnswersIn w'.fs w'.arena.dir = Request.AnswersIn w.fs w.arena.dir := by
  obtain ⟨paths, harena, hcreated⟩ := h
  rw [harena]
  exact Request.answersIn_congr hcreated.keepsDirectories.workingDir _

/-- All allocations of a run answer their requests in the place where the run starts. -/
theorem answersIn_of_allocateAll {requests : List Request} {paths : List Path}
    (h : w.allocateAll requests = (.ok paths, w')) :
    List.Forall₂ (Request.AnswersIn w.fs w.arena.dir) requests paths := by
  induction requests generalizing w paths with
  | nil =>
    cases h
    exact .nil
  | cons r rest ih =>
    simp only [allocateAll] at h
    split at h
    · cases h
    · next q mid ha =>
      have hgrows : w.Grows mid := by
        have hone := w.grows_allocate r.name r.extension
        rwa [ha] at hone
      split at h
      · cases h
      · next paths' w₂ hr =>
        cases h
        have hrest := ih hr
        rw [hgrows.answersIn] at hrest
        exact .cons (answersIn_of_allocate ha) hrest

end Workspace

namespace Path

theorem foldl_follow_filter (pieces : List Bytes) (loc : Location) :
    (pieces.filter (· ≠ [dot])).foldl follow loc = pieces.foldl follow loc := by
  induction pieces generalizing loc with
  | nil => rfl
  | cons piece rest ih =>
    by_cases hp : piece = [dot]
    · have hstay : follow loc piece = loc := if_pos hp
      rw [List.foldl_cons, hstay, ← ih, hp]
      rfl
    · rw [List.filter_cons_of_pos (by simpa using hp), List.foldl_cons, List.foldl_cons, ih]

/-- A path leads to a place that has the file name of the path. -/
theorem getLast?_foldl_follow {p : Path} {name : Bytes} (h : p.fileName = some name)
    (loc : Location) : (p.pieces.foldl follow loc).getLast? = some name := by
  unfold fileName at h
  split at h
  · next last hl =>
    split_ifs at h with hdots
    obtain rfl := Option.some.inj h
    obtain ⟨before, hbefore⟩ := List.getLast?_eq_some_iff.mp hl
    have hdot : last ≠ [dot] := by
      have hm : last ∈ p.pieces.filter (· ≠ [dot]) := List.mem_of_getLast? hl
      simpa using (List.mem_filter.mp hm).2
    rw [← foldl_follow_filter, hbefore, List.foldl_append, List.foldl_cons, List.foldl_nil, follow,
      if_neg hdot, if_neg hdots, List.getLast?_concat]
  · cases h

theorem pieces_append (before rest : Bytes) :
    pieces ⟨before ++ slash :: rest⟩ = pieces ⟨before⟩ ++ pieces ⟨rest⟩ := by
  rw [pieces, List.splitOn_append_cons_self, List.filter_append]
  rfl

/-- A path that is joined keeps its file name. -/
theorem fileName_join (dir : Path) {p : Path} {name : Bytes} (h : p.fileName = some name) :
    (dir.join p).fileName = some name := by
  by_cases ha : p.isAbsolute = true
  · rw [join_of_isAbsolute ha, h]
  · obtain ⟨before, hj, rfl | hb⟩ := dir.exists_join_eq (Bool.not_eq_true _ ▸ ha)
    · rw [hj, List.nil_append]
      exact h
    · obtain ⟨outer, rfl⟩ := List.getLast?_eq_some_iff.mp hb
      rw [hj, List.append_assoc, List.singleton_append]
      unfold fileName at h ⊢
      rw [pieces_append, List.filter_append, List.getLast?_append]
      split at h
      · next last hl =>
        rw [hl, Option.some_or]
        exact h
      · cases h

/-- What stands after the last separator. -/
theorem exists_after_slash (bytes : Bytes) : ∃ before name, bytes = before ++ name ∧
    (before = [] ∨ before.getLast? = some slash) ∧ slash ∉ name := by
  by_cases hm : slash ∈ bytes
  · obtain ⟨after, before, hsplit, hn⟩ := List.eq_append_cons_of_mem (List.mem_reverse.mpr hm)
    have hbytes : bytes = (before.reverse ++ [slash]) ++ after.reverse := by
      rw [← List.reverse_reverse bytes, hsplit]
      simp
    exact ⟨_, _, hbytes, Or.inr (by simp), by simpa using hn⟩
  · exact ⟨[], bytes, rfl, Or.inl rfl, hm⟩

end Path

/-- The bytes name an entry of a directory: they are one piece, and not a piece that leads back. -/
structure IsEntryName (name : Bytes) : Prop where
  slash : Path.slash ∉ name
  ne_nil : name ≠ []
  ne_dot : name ≠ [Path.dot]
  ne_dots : name ≠ [Path.dot, Path.dot]

theorem IsEntryName.fileName_join {name : Bytes} (h : IsEntryName name) (dir : Path) :
    (dir.join ⟨name⟩).fileName = some name :=
  Path.fileName_join dir (Path.fileName_append (Or.inl rfl) h.slash h.ne_nil h.ne_dot h.ne_dots)

theorem Token.exists_fileName_eq (t : Token) (name extension : String) :
    ∃ rest, t.fileName name extension = Utf8.encode "ac" ++ rest := by
  simp only [fileName, List.append_assoc]
  exact ⟨_, rfl⟩

/-- A temporary is named by its token, with `ac` in front. -/
theorem Token.isEntryName (t : Token) {name extension : String} (hn : '/' ∉ name.toList)
    (he : '/' ∉ extension.toList) : IsEntryName (t.fileName name extension) := by
  have hname : t.fileName name extension = t.stem name ++ Utf8.encode extension := rfl
  have hhead : (t.fileName name extension).head? = some 0x61 := rfl
  refine ⟨?_, ?_, ?_, ?_⟩
  · rw [hname, List.mem_append, not_or]
    exact ⟨t.slash_not_mem_stem hn, Utf8.slash_not_mem_encode he⟩
  all_goals
    intro hd
    rw [hd] at hhead
    cases hhead

namespace Request

variable {fs : FileSystem} {dir source q : Path} {f : Format}

theorem fileName_path (fs : FileSystem) (dir source : Path) (f : Format) (t : Token) :
    (path ⟨CompilationUnit.nameOf source, f.extension⟩ fs dir t).fileName =
      some (t.fileName (CompilationUnit.nameOf source) f.extension) := by
  rw [path, t.absolute_path]
  exact (t.isEntryName (CompilationUnit.slash_not_mem_nameOf source)
    f.slash_not_mem_extension).fileName_join _

theorem AnswersIn.fileName
    (h : AnswersIn fs dir ⟨CompilationUnit.nameOf source, f.extension⟩ q) :
    ∃ rest, q.fileName = some (Utf8.encode "ac" ++ rest) := by
  obtain ⟨t, rfl⟩ := h
  obtain ⟨rest, hrest⟩ := t.exists_fileName_eq (CompilationUnit.nameOf source) f.extension
  exact ⟨rest, (fileName_path fs dir source f t).trans (congrArg some hrest)⟩

theorem AnswersIn.temporaryPlace
    (h : AnswersIn fs dir ⟨CompilationUnit.nameOf source, f.extension⟩ q) :
    TemporaryPlace fs dir q.location := by
  obtain ⟨t, rfl⟩ := h
  exact ⟨source, f, t, rfl⟩

end Request

/-- All temporaries of builds are called alike. -/
theorem TemporaryPlace.exists_name {fs : FileSystem} {dir : Path} {loc : Location}
    (h : TemporaryPlace fs dir loc) : ∃ rest, loc.getLast? = some (Utf8.encode "ac" ++ rest) := by
  obtain ⟨source, f, t, rfl⟩ := h
  obtain ⟨rest, hrest⟩ := t.exists_fileName_eq (CompilationUnit.nameOf source) f.extension
  have hname := Path.getLast?_foldl_follow (Request.fileName_path fs dir source f t) []
  exact ⟨rest, hname.trans (congrArg some hrest)⟩

theorem Utf8.encode_append (s s' : String) : encode (s ++ s') = encode s ++ encode s' := by
  rw [encode, String.toList_append, encodeChars_append]
  rfl

namespace FileSystem

variable {fs fs' : FileSystem} {paths : List Path} {p : Path} {name : Bytes} {loc : Location}
  {node : Node}

/-- New files are no directories, so no path leads further than it did before. -/
theorem Created.keepsDirectories_back (h : fs.Created paths fs') : fs'.KeepsDirectories fs := by
  refine ⟨fun loc hd => ?_, h.keepsDirectories.workingDir.symm⟩
  rw [h.node?] at hd
  split_ifs at hd with hm
  · cases hd
  · exact hd

/-- A path that leads to none of the new files finds what it has found before. -/
theorem Created.find_iff (h : fs.Created paths fs') (hp : fs.place p ∉ paths.map Path.location) :
    fs'.find p = .ok (loc, node) ↔ fs.find p = .ok (loc, node) := by
  rw [find_eq_ok_iff, find_eq_ok_iff]
  constructor
  · intro ⟨hr, hnode, hs⟩
    have hback := h.keepsDirectories_back.resolve hr
    rw [h.node?_of_not_mem (place_of_resolve hback ▸ hp)] at hnode
    exact ⟨hback, hnode, hs⟩
  · intro ⟨hr, hnode, hs⟩
    rw [← h.node?_of_not_mem (place_of_resolve hr ▸ hp)] at hnode
    exact ⟨h.keepsDirectories.resolve hr, hnode, hs⟩

theorem isFile_iff : fs.isFile p = true ↔
    ∃ loc content executable, fs.find p = .ok (loc, .file content executable) := by
  unfold isFile
  split
  · next found h => exact ⟨fun _ => ⟨_, _, _, h⟩, fun _ => rfl⟩
  · next h =>
    constructor
    · intro hf
      cases hf
    · intro ⟨loc, content, executable, hf⟩
      exact absurd hf (h loc content executable)

theorem Created.isFile_eq (h : fs.Created paths fs') (hp : fs.place p ∉ paths.map Path.location) :
    fs'.isFile p = fs.isFile p := by
  rw [Bool.eq_iff_iff, isFile_iff, isFile_iff]
  simp only [h.find_iff hp]

/-- No new file is made where a file is. -/
theorem Created.place_not_mem (h : fs.Created paths fs') (hp : fs.isFile p = true) :
    fs.place p ∉ paths.map Path.location := by
  intro hm
  obtain ⟨q, hq, hloc⟩ := List.mem_map.mp hm
  obtain ⟨loc, content, executable, hf⟩ := isFile_iff.mp hp
  obtain ⟨hr, hnode, -⟩ := find_eq_ok_iff.mp hf
  rw [place_of_resolve hr, ← hloc, h.vacant q hq] at hnode
  cases hnode

/-- New files change the outcome of a search only where it looks before it finds something. -/
theorem Created.find?_isFile_eq (h : fs.Created paths fs') {searched : List Path}
    (hs : ∀ p ∈ searched.takeWhile fun p => !fs.isFile p,
      fs.place p ∉ paths.map Path.location) :
    searched.find? fs'.isFile = searched.find? fs.isFile := by
  induction searched with
  | nil => rfl
  | cons p rest ih =>
    cases hp : fs.isFile p with
    | true =>
      rw [List.find?_cons, List.find?_cons, h.isFile_eq (h.place_not_mem hp), hp]
    | false =>
      rw [List.takeWhile_cons_of_pos (by rw [hp]; rfl), List.forall_mem_cons] at hs
      rw [List.find?_cons, List.find?_cons, h.isFile_eq hs.1, hp, ih hs.2]

theorem getLast?_place (h : p.fileName = some name) : (fs.place p).getLast? = some name :=
  Path.getLast?_foldl_follow h _

/-- A path whose name does not open with `ac` leads to no temporary. -/
theorem not_temporaryPlace (h : p.fileName = some name) (hn : ¬ Utf8.encode "ac" <+: name)
    (dir : Path) : ¬ TemporaryPlace fs dir (fs.place p) := by
  intro ht
  obtain ⟨rest, hrest⟩ := ht.exists_name
  rw [getLast?_place h, Option.some.injEq] at hrest
  exact hn (hrest ▸ List.prefix_append _ _)

end FileSystem

end CompilerDriver
