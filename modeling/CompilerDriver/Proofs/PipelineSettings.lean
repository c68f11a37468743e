import CompilerDriver.Proofs.TwinTemporaries
import CompilerDriver.Proofs.UnitAdvance

/-!
# What a pipeline takes from the settings

The command lines of a pipeline depend on the tools, on the settings that both
pipelines share, and on the configuration of that pipeline. Of the file system
they depend on one thing: which of the places of the device library holds it.
That is as it was at the start, unless a temporary comes to lie where the library
has been searched for in vain.
-/
namespace CompilerDriver

namespace Config

/-- What the library of the device target is called below its directory. -/
def libraryFile (c : Config) : Path := .ofString (c.toolchain.deviceTarget ++ ".bc")

/-- No temporary is called like the device library, where that has to be searched for. -/
def LibraryApart (c : Config) (temporaries : List Path) : Prop :=
  c.toolchain.libclcLib = none → ∀ q ∈ temporaries, q.fileName ≠ c.libraryFile.fileName

/-- Where the device library is searched for and is not found, up to the place where it is. -/
def missedPlaces (c : Config) (fs : FileSystem) : List Location :=
  if c.toolchain.libclcLib.isSome then []
  else ((c.device.libraryDirs.map (·.join c.libraryFile)).takeWhile fun p => !fs.isFile p).map
    fs.place

/-- None of the temporaries lies where the search for the device library goes by. -/
def LibraryClear (c : Config) (fs : FileSystem) (temporaries : List Path) : Prop :=
  ∀ q ∈ temporaries, q.location ∉ c.missedPlaces fs

/-- Whatever a build chooses for its temporaries in this directory, none of them can lie where the
search for the device library goes by. -/
def KeepsLibrary (c : Config) (fs : FileSystem) (dir : Path) : Prop :=
  ∀ loc ∈ c.missedPlaces fs, ¬ TemporaryPlace fs dir loc

variable {c : Config} {fs : FileSystem} {dir : Path} {temporaries : List Path}

theorem exists_of_mem_missedPlaces {loc : Location} (h : loc ∈ c.missedPlaces fs) :
    c.toolchain.libclcLib = none ∧ ∃ d ∈ c.device.libraryDirs,
      loc = fs.place (d.join c.libraryFile) := by
  unfold missedPlaces at h
  split_ifs at h with hlib
  · cases h
  · obtain ⟨q, hq, rfl⟩ := List.mem_map.mp h
    obtain ⟨d, hd, rfl⟩ := List.mem_map.mp (List.takeWhile_subset _ hq)
    exact ⟨by simpa using hlib, d, hd, rfl⟩

theorem exists_fileName_libraryFile (c : Config) : ∃ name, c.libraryFile.fileName = some name := by
  obtain ⟨before, name, hbytes, hbefore, hname⟩ :=
    Path.exists_after_slash (Utf8.encode c.toolchain.deviceTarget)
  have hfile : c.libraryFile = ⟨before ++ (name ++ Utf8.encode ".bc")⟩ := by
    rw [libraryFile, Path.ofString, Utf8.encode_append, hbytes, List.append_assoc]
  have hslash : Path.slash ∉ name ++ Utf8.encode ".bc" := by
    rw [List.mem_append, not_or]
    exact ⟨hname, by decide⟩
  have hlast : (name ++ Utf8.encode ".bc").getLast? = some 0x63 := by
    rw [List.getLast?_append]
    rfl
  rw [hfile]
  refine ⟨_, Path.fileName_append hbefore hslash ?_ ?_ ?_⟩
  all_goals
    intro h
    rw [h] at hlast
    cases hlast

theorem LibraryApart.clear (h : c.LibraryApart temporaries)
    (ht : ∀ q ∈ temporaries, ∃ name, q.fileName = some name) (fs : FileSystem) :
    c.LibraryClear fs temporaries := by
  intro q hq hm
  obtain ⟨name, hname⟩ := ht q hq
  obtain ⟨library, hlibrary⟩ := c.exists_fileName_libraryFile
  obtain ⟨hnone, d, -, hloc⟩ := exists_of_mem_missedPlaces hm
  have hlast : q.location.getLast? = some library := by
    rw [hloc]
    exact FileSystem.getLast?_place (Path.fileName_join d hlibrary)
  rw [Path.location, Path.getLast?_foldl_follow hname] at hlast
  exact h hnone q hq ((hname.trans hlast).trans hlibrary.symm)

theorem KeepsLibrary.clear (h : c.KeepsLibrary fs dir)
    (ht : ∀ q ∈ temporaries, TemporaryPlace fs dir q.location) : c.LibraryClear fs temporaries :=
  fun q hq hm => h _ hm (ht q hq)

/-- A library whose name does not open with `ac` is safe from all temporaries. -/
theorem keepsLibrary_of_name {name : Bytes} (hname : c.libraryFile.fileName = some name)
    (hl : ¬ Utf8.encode "ac" <+: name) (fs : FileSystem) (dir : Path) :
    c.KeepsLibrary fs dir := by
  intro loc hm
  obtain ⟨-, d, -, rfl⟩ := exists_of_mem_missedPlaces hm
  exact FileSystem.not_temporaryPlace (Path.fileName_join d hname) hl dir

end Config

namespace ActionKind

variable {s : Stage} {format : Option Format} {kind : ActionKind}

/-- The device has no step that reads the search paths of the host. -/
theorem of_dispatch_device (h : dispatch .device s format = some kind) :
    kind ≠ .cxxCompile ∧ kind ≠ .hostLink := by
  rcases format with _ | _ | _ | _ | _
  · cases h
  all_goals
    cases s <;> first | cases h; done | (cases h; decide)

/-- The host has no step that reads the search paths of the device. -/
theorem of_dispatch_host (h : dispatch .host s format = some kind) :
    kind ≠ .clCompile ∧ kind ≠ .deviceLink := by
  rcases format with _ | _ | _ | _ | _
  · cases h
  all_goals
    cases s <;> first | cases h; done | (cases h; decide)

end ActionKind

namespace BuildSettings

variable {s s' : BuildSettings} {fs fs' : FileSystem} {temporaries : List Path} {kind : ActionKind}

/-- Temporaries that lie elsewhere are never found for the device library. -/
theorem deviceLibrary_eq (h : fs.Created temporaries fs')
    (hclear : s.config.LibraryClear fs temporaries) : s.deviceLibrary fs' = s.deviceLibrary fs := by
  unfold deviceLibrary
  dsimp only
  cases hlib : s.config.toolchain.libclcLib with
  | some dir => rfl
  | none =>
    refine congrArg (·.getD s.config.libraryFile) (h.find?_isFile_eq fun q hq hm => ?_)
    obtain ⟨temporary, ht, hloc⟩ := List.mem_map.mp hm
    refine hclear temporary ht ?_
    rw [hloc, Config.missedPlaces, if_neg (by rw [hlib]; decide)]
    exact List.mem_map_of_mem hq

theorem template_eq_of_ne (h : kind ≠ .deviceLink) : s.template fs' kind = s.template fs kind := by
  cases kind
  case deviceLink => exact absurd rfl h
  all_goals rfl

/-- Where the device library stays what it was, so does every step. -/
theorem template_eq (h : s.deviceLibrary fs' = s.deviceLibrary fs) :
    s.template fs' kind = s.template fs kind := by
  by_cases hlink : kind = .deviceLink
  · subst hlink
    unfold template
    rw [h]
  · exact template_eq_of_ne hlink

/-- The settings agree on all that counts for a pipeline. -/
structure AgreeOn (p : Pipeline) (s s' : BuildSettings) : Prop where
  tools : s'.tools = s.tools
  pipeline : s'.config.pipeline p = s.config.pipeline p
  toolchain : s'.config.toolchain = s.config.toolchain
  stages : s'.config.stages = s.config.stages
  database : s'.config.database = s.config.database

theorem AgreeOn.refl (p : Pipeline) (s : BuildSettings) : AgreeOn p s s := ⟨rfl, rfl, rfl, rfl, rfl⟩

theorem AgreeOn.deviceLibrary (h : AgreeOn .device s s') (fs : FileSystem) :
    s'.deviceLibrary fs = s.deviceLibrary fs := by
  have hdevice : s'.config.device = s.config.device := h.pipeline
  unfold BuildSettings.deviceLibrary
  rw [h.toolchain, hdevice]

theorem AgreeOn.missedPlaces (h : AgreeOn .device s s') (fs : FileSystem) :
    s'.config.missedPlaces fs = s.config.missedPlaces fs := by
  have hdevice : s'.config.device = s.config.device := h.pipeline
  unfold Config.missedPlaces Config.libraryFile
  rw [h.toolchain, hdevice]

/-- The template of a device link names the library at the end, and nothing else beside the tool. -/
theorem template_deviceLink {t : Template} (h : s.template fs .deviceLink = .ok t) :
    t = { program := s.tools.llvmLink, trailing := [(s.deviceLibrary fs).bytes] } :=
  (Except.ok.inj h).symm

/-- The steps of a pipeline look the same under settings that agree on it. -/
theorem AgreeOn.template {p : Pipeline} {stage : Stage} {format : Option Format}
    (h : AgreeOn p s s') (hk : ActionKind.dispatch p stage format = some kind) (fs : FileSystem) :
    s'.template fs kind = s.template fs kind := by
  cases p with
  | device =>
    have hdevice : s'.config.device = s.config.device := h.pipeline
    obtain ⟨hcompile, hlink⟩ := ActionKind.of_dispatch_device hk
    cases kind
    case cxxCompile => exact absurd rfl hcompile
    case hostLink => exact absurd rfl hlink
    all_goals
      simp only [BuildSettings.template, pass, h.deviceLibrary, h.tools, h.toolchain, h.database,
        hdevice]
  | host =>
    have hhost : s'.config.host = s.config.host := h.pipeline
    obtain ⟨hcompile, hlink⟩ := ActionKind.of_dispatch_host hk
    cases kind
    case clCompile => exact absurd rfl hcompile
    case deviceLink => exact absurd rfl hlink
    all_goals
      simp only [BuildSettings.template, pass, h.tools, h.toolchain, h.database, hhost]

end BuildSettings

end CompilerDriver
