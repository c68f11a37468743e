import CompilerDriver.Proofs.CommandFiles
import CompilerDriver.Proofs.PipelineSettings
import CompilerDriver.Proofs.StageDraws

/-!
# The library of the device

A device link names one library after the outputs of its units. The one that is
configured for the target comes first, whatever else there is. Without it the
search directories are asked in order, and the first that has the library as a
file decides: directories after it do not count, and nor do directories before
it that have no such file. Where none has it, its bare name is left.
-/
namespace CompilerDriver

/-- A regular file stands at the path. A directory or a device is none. -/
def FileSystem.HasFile (fs : FileSystem) (p : Path) : Prop :=
  ∃ loc content executable, fs.find p = .ok (loc, .file content executable)

theorem FileSystem.hasFile_iff {fs : FileSystem} {p : Path} : fs.HasFile p ↔ fs.isFile p = true :=
  isFile_iff.symm

/-- The library that a device link names, by the configuration and the file system. -/
inductive SelectsLibrary (c : Config) (fs : FileSystem) : Path → Prop where
  | configured {dir : Path} : c.toolchain.libclcLib = some dir →
      SelectsLibrary c fs (dir.join c.libraryFile)
  | found {before after : List Path} {dir : Path} : c.toolchain.libclcLib = none →
      c.device.libraryDirs = before ++ dir :: after →
      (∀ d ∈ before, ¬ fs.HasFile (d.join c.libraryFile)) →
      fs.HasFile (dir.join c.libraryFile) → SelectsLibrary c fs (dir.join c.libraryFile)
  | bare : c.toolchain.libclcLib = none →
      (∀ d ∈ c.device.libraryDirs, ¬ fs.HasFile (d.join c.libraryFile)) →
      SelectsLibrary c fs c.libraryFile

/-- The action links the outputs of all units after the first one, in their order, and then the
library, into the output of the first one. -/
structure Action.LinksDevice (settings : BuildSettings) (fs : FileSystem)
    (units : List CompilationUnit) (library : Path) (a : Action) : Prop where
  output : units.head?.bind (·.current) = some a.binding.output
  inputs : units.tail.map (·.current) = a.binding.inputs.map some
  nonempty : a.binding.inputs ≠ []
  selects : SelectsLibrary settings.config fs library
  command : a.command = ⟨settings.tools.llvmLink, Utf8.encode "-o" :: a.binding.output.bytes ::
    (a.binding.inputs.map Path.bytes ++ [library.bytes])⟩

/-- The same settings with other search directories for the device. -/
def BuildSettings.withLibraryDirs (s : BuildSettings) (dirs : List Path) : BuildSettings :=
  { s with config := { s.config with device := { s.config.device with libraryDirs := dirs } } }

/-- How device links come to their library under some settings. -/
structure LinksLibrary (settings : BuildSettings) : Prop where
  selected : ∀ fs, ∃! library, SelectsLibrary settings.config fs library
  /-- One or more units that have outputs can be linked into another one. -/
  builds : ∀ (fs : FileSystem) (target : CompilationUnit) (others : List CompilationUnit)
    (output : Path) (inputs : List Path), target.current = some output →
    others.map (·.current) = inputs.map some → inputs ≠ [] →
    ∃ a, Action.build settings fs .deviceLink (target :: others) = .ok a
  links : ∀ fs units a, Action.build settings fs .deviceLink units = .ok a →
    ∃ library, a.LinksDevice settings fs units library
  /-- Where a directory is configured, neither the search directories nor the files count. -/
  configured : settings.config.toolchain.libclcLib.isSome = true → ∀ dirs fs fs' kind units,
    Action.build (settings.withLibraryDirs dirs) fs' kind units =
      Action.build settings fs kind units
  /-- Directories without the library change nothing in front of the others. -/
  prepended : ∀ (fs : FileSystem) (more : List Path),
    (∀ d ∈ more, ¬ fs.HasFile (d.join settings.config.libraryFile)) → ∀ kind units,
    Action.build (settings.withLibraryDirs (more ++ settings.config.device.libraryDirs)) fs kind
      units = Action.build settings fs kind units
  /-- Directories after one that has the library can be others, more or fewer. -/
  followed : ∀ (fs : FileSystem) (before after : List Path) (dir : Path),
    settings.config.device.libraryDirs = before ++ dir :: after →
    fs.HasFile (dir.join settings.config.libraryFile) → ∀ after' kind units,
    Action.build (settings.withLibraryDirs (before ++ dir :: after')) fs kind units =
      Action.build settings fs kind units
  /-- Every device link of a plan, whatever the assembler, has the library that is selected on the
  file system at the moment of linking, when some of the temporaries have been made. -/
  assembled : ∀ (assembler : Assembler) (stages : StagePlan) (w : Workspace) (plan : BuildPlan)
    (w' : Workspace), (assembler.assemble settings stages).run w = (.ok plan, w') →
    ∀ a ∈ plan.actions.toList, a.kind = .deviceLink → ∃ mid units library, w.Grows mid ∧
      mid.Grows w' ∧ a.LinksDevice settings mid.fs units library

namespace Config

variable {c : Config} {fs : FileSystem} {dir : Path}

/-- The first search directory that has the library as a file. -/
def libraryDir? (c : Config) (fs : FileSystem) : Option Path :=
  c.device.libraryDirs.find? fun d => fs.isFile (d.join c.libraryFile)

theorem libraryDir?_eq_none_iff : c.libraryDir? fs = none ↔
    ∀ d ∈ c.device.libraryDirs, ¬ fs.HasFile (d.join c.libraryFile) := by
  simp only [libraryDir?, List.find?_eq_none, FileSystem.hasFile_iff]

theorem libraryDir?_eq_some_iff : c.libraryDir? fs = some dir ↔
    fs.HasFile (dir.join c.libraryFile) ∧ ∃ before after,
      c.device.libraryDirs = before ++ dir :: after ∧
        ∀ d ∈ before, ¬ fs.HasFile (d.join c.libraryFile) := by
  simp only [libraryDir?, List.find?_eq_some_iff_append, FileSystem.hasFile_iff,
    Bool.not_eq_true', Bool.not_eq_true]

end Config

namespace BuildSettings

variable {s : BuildSettings} {fs fs' : FileSystem} {library dir : Path}
  {dirs more before after : List Path}

theorem deviceLibrary_eq_elim (s : BuildSettings) (fs : FileSystem) :
    s.deviceLibrary fs = (s.config.toolchain.libclcLib.or (s.config.libraryDir? fs)).elim
      s.config.libraryFile (·.join s.config.libraryFile) := by
  unfold deviceLibrary
  cases hlib : s.config.toolchain.libclcLib with
  | some dir => rfl
  | none =>
    simp only [List.find?_map, Option.none_or]
    change ((s.config.libraryDir? fs).map (·.join s.config.libraryFile)).getD _ = _
    cases s.config.libraryDir? fs <;> rfl

theorem deviceLibrary_eq_iff : s.deviceLibrary fs = library ↔
    SelectsLibrary s.config fs library := by
  rw [deviceLibrary_eq_elim]
  constructor
  · rintro rfl
    cases hlib : s.config.toolchain.libclcLib with
    | some dir => exact .configured hlib
    | none =>
      cases hdir : s.config.libraryDir? fs with
      | none => exact .bare hlib (Config.libraryDir?_eq_none_iff.mp hdir)
      | some dir =>
        obtain ⟨hfile, before, after, hdirs, hbefore⟩ := Config.libraryDir?_eq_some_iff.mp hdir
        exact .found hlib hdirs hbefore hfile
  · intro h
    cases h with
    | configured hlib => rw [hlib]; rfl
    | found hlib hdirs hbefore hfile =>
      have hdir := Config.libraryDir?_eq_some_iff.mpr ⟨hfile, _, _, hdirs, hbefore⟩
      rw [hlib, hdir]
      rfl
    | bare hlib hnone =>
      rw [hlib, Config.libraryDir?_eq_none_iff.mpr hnone]
      rfl

/-- The search goes past directories that do not have the library. -/
theorem libraryDir?_prepend (h : ∀ d ∈ more, ¬ fs.HasFile (d.join s.config.libraryFile)) :
    (s.withLibraryDirs (more ++ s.config.device.libraryDirs)).config.libraryDir? fs =
      s.config.libraryDir? fs := by
  have hmore : (more.find? fun d => fs.isFile (d.join s.config.libraryFile)) = none := by
    rw [List.find?_eq_none]
    simpa only [FileSystem.hasFile_iff] using h
  calc
    _ = (more ++ s.config.device.libraryDirs).find? fun d =>
        fs.isFile (d.join s.config.libraryFile) := rfl
    _ = _ := by rw [List.find?_append, hmore, Option.none_or, Config.libraryDir?]

/-- The search ends at a directory that has the library, if it has not ended before. -/
theorem libraryDir?_follow (h : fs.HasFile (dir.join s.config.libraryFile)) (after : List Path) :
    (s.withLibraryDirs (before ++ dir :: after)).config.libraryDir? fs =
      (before.find? fun d => fs.isFile (d.join s.config.libraryFile)).or (some dir) := by
  have hfile : fs.isFile (dir.join s.config.libraryFile) = true := FileSystem.hasFile_iff.mp h
  calc
    _ = (before ++ dir :: after).find? fun d => fs.isFile (d.join s.config.libraryFile) := rfl
    _ = _ := by rw [List.find?_append, List.find?_cons, hfile]

/-- Where the search directories do not change the library, they change no action. -/
theorem build_withLibraryDirs
    (h : (s.withLibraryDirs dirs).deviceLibrary fs' = s.deviceLibrary fs) (kind : ActionKind)
    (units : List CompilationUnit) :
    Action.build (s.withLibraryDirs dirs) fs' kind units = Action.build s fs kind units := by
  have htemplate : (s.withLibraryDirs dirs).template fs' kind = s.template fs kind := by
    cases kind
    case deviceLink =>
      unfold template
      rw [h]
      rfl
    all_goals rfl
  unfold Action.build
  rw [htemplate]

end BuildSettings

/-- A device link is on the outputs of its units, and ends with the library. -/
theorem Action.linksDevice_of_build {settings : BuildSettings} {fs : FileSystem}
    {units : List CompilationUnit} {a : Action}
    (h : Action.build settings fs .deviceLink units = .ok a) :
    ∃ library, a.LinksDevice settings fs units library := by
  obtain ⟨_, b, ht, hb, rfl⟩ := ActionKind.exists_eq_of_build h
  cases ht
  cases hb with
  | single harity => cases harity
  | @merge target others output inputs _ hothers houtput hinputs =>
    have hcurrent : others.map (·.current) = inputs.map some :=
      AssemblyContext.map_current_of_mapM hinputs
    have hne : inputs ≠ [] := by
      rintro rfl
      exact hothers (List.map_eq_nil_iff.mp hcurrent)
    exact ⟨settings.deviceLibrary fs,
      { output := AssemblyContext.current_of_currentOutput houtput
        inputs := hcurrent
        nonempty := hne
        selects := BuildSettings.deviceLibrary_eq_iff.mp rfl
        command := rfl }⟩

/-- For all settings, whatever the target is called and wherever the search directories lie. -/
theorem linksLibrary (settings : BuildSettings) : LinksLibrary settings where
  selected fs := ⟨_, BuildSettings.deviceLibrary_eq_iff.mp rfl, fun _ h =>
    (BuildSettings.deviceLibrary_eq_iff.mpr h).symm⟩
  builds fs target others output inputs houtput hinputs hne := by
    have hothers : others ≠ [] := by
      rintro rfl
      exact hne (List.map_eq_nil_iff.mp hinputs.symm)
    have hbinds : ActionKind.deviceLink.Binds (target :: others) ⟨output, inputs⟩ :=
      .merge rfl hothers (by rw [CompilationUnit.currentOutput, houtput])
        (AssemblyContext.mapM_currentOutput hinputs)
    exact ⟨_, hbinds.build_eq rfl⟩
  links fs units a h := Action.linksDevice_of_build h
  configured hlib dirs fs fs' kind units := by
    refine BuildSettings.build_withLibraryDirs ?_ kind units
    obtain ⟨dir, hdir⟩ := Option.isSome_iff_exists.mp hlib
    have hdir' : (settings.withLibraryDirs dirs).config.toolchain.libclcLib = some dir := hdir
    rw [BuildSettings.deviceLibrary_eq_elim, BuildSettings.deviceLibrary_eq_elim, hdir, hdir',
      Option.some_or, Option.some_or]
    rfl
  prepended fs more hmore kind units := by
    refine BuildSettings.build_withLibraryDirs ?_ kind units
    rw [BuildSettings.deviceLibrary_eq_elim, BuildSettings.deviceLibrary_eq_elim,
      BuildSettings.libraryDir?_prepend hmore]
    rfl
  followed fs before after dir hdirs hfile after' kind units := by
    refine BuildSettings.build_withLibraryDirs ?_ kind units
    have hown : settings.config.libraryDir? fs =
        (settings.withLibraryDirs (before ++ dir :: after)).config.libraryDir? fs := by
      rw [← hdirs]
      rfl
    rw [BuildSettings.deviceLibrary_eq_elim, BuildSettings.deviceLibrary_eq_elim, hown,
      BuildSettings.libraryDir?_follow hfile, BuildSettings.libraryDir?_follow hfile]
    rfl
  assembled assembler stages w plan w' h a ha hkind := by
    obtain ⟨mid, kind, units, hbefore, hafter, hbuild⟩ :=
      Assembler.builtBetween_of_assemble h a ha
    obtain ⟨_, _, -, -, rfl⟩ := ActionKind.exists_eq_of_build hbuild
    obtain rfl : kind = .deviceLink := hkind
    obtain ⟨library, hlinks⟩ := Action.linksDevice_of_build hbuild
    exact ⟨mid, units, library, hbefore, hafter, hlinks⟩

/-- A directory that is called like the library is passed over, and so is a later file. -/
example :
    let file := Utf8.encode "x.bc"
    let fs : FileSystem := { entries := [([Utf8.encode "a"], .directory),
      ([Utf8.encode "a", file], .directory), ([Utf8.encode "b"], .directory),
      ([Utf8.encode "b", file], .file [] false), ([Utf8.encode "c"], .directory),
      ([Utf8.encode "c", file], .file [] false)] }
    let c : Config :=
      { device := { libraryDirs := [.ofString "/a", .ofString "/b", .ofString "/c"] }
        toolchain := { deviceTarget := "x" } }
    c.libraryDir? fs = some (.ofString "/b") := by
  decide +kernel

end CompilerDriver
