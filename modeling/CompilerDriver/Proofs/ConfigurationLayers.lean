import CompilerDriver.Arguments
import CompilerDriver.Proofs.TextEncoding

/-!
# The layers of a configuration

A configuration is made of the settings file, the environment and the command line.
Every field follows one of a few rules: the upper layer replaces the lower one, adds
to it, or switches it one way. The rules are stated here without the order in which
the layers are applied, and they leave no field open: there is one configuration that
follows them all, and it is the one that is used. The same holds for the choice of
the file, where a file that cannot be used is an error and never passed over.
-/
namespace CompilerDriver

/-- Where the upper layer has a value it stands, and else the value below. -/
inductive Overlaid {α : Type} (upper : α → Prop) (below : Option α) : Option α → Prop where
  | replaced {x : α} : upper x → Overlaid upper below (some x)
  | kept : (∀ x, ¬upper x) → Overlaid upper below below

theorem Overlaid.of_or {α : Type} {upper : α → Prop} {o below : Option α}
    (h : ∀ x, o = some x ↔ upper x) : Overlaid upper below (o.or below) := by
  cases o with
  | none => exact .kept fun x hx => nomatch (h x).mpr hx
  | some x => exact .replaced ((h x).mp rfl)

theorem Overlaid.eq_or {α : Type} {upper : α → Prop} {o below value : Option α}
    (hv : Overlaid upper below value) (h : ∀ x, o = some x ↔ upper x) : value = o.or below := by
  cases hv with
  | replaced hx => rw [(h _).mpr hx, Option.some_or]
  | kept hn =>
    have ho : o = none := Option.eq_none_iff_forall_ne_some.mpr fun x hx => hn x ((h x).mp hx)
    rw [ho, Option.none_or]

namespace Environment

/-- The variable holds a text, and it is not empty. -/
def Sets (env : Environment) (name : String) (p : Path) : Prop :=
  ∃ text, text ≠ "" ∧ env.get? name = some (Utf8.encode text) ∧ p = .ofString text

theorem setting?_eq_some_iff (env : Environment) (name : String) (p : Path) :
    env.setting? name = some p ↔ env.Sets name p := by
  unfold setting?
  constructor
  · intro h
    split at h
    · next bytes hb =>
      split at h
      · next hset =>
        obtain ⟨hne, htext⟩ := hset
        obtain ⟨text, ht⟩ := Option.isSome_iff_exists.mp htext
        obtain rfl := Utf8.decode?_eq_some_iff.mp ht
        obtain rfl := Option.some.inj h
        exact ⟨text, fun he => hne (he ▸ rfl), hb, rfl⟩
      · cases h
    · cases h
  · rintro ⟨text, hne, hb, rfl⟩
    have ht : Utf8.decode? (Utf8.encode text) = some text := Utf8.decode?_eq_some_iff.mpr rfl
    have hbytes : Utf8.encode text ≠ [] := by
      intro he
      rw [he] at ht
      exact hne (Option.some.inj ht).symm
    rw [hb]
    exact if_pos ⟨hbytes, by rw [ht]; rfl⟩

/-- A variable that holds no text sets nothing. -/
example : (Environment.mk fun _ => some [0xFF]).setting? "CUDA_INC" = .none := by decide

end Environment

namespace Settings

/-- What the file at a path comes to: settings, if it is a text that makes sense. -/
inductive Reads (fs : FileSystem) (p : Path) : Except SettingsError Settings → Prop where
  | settings {text : String} {s : Settings} : fs.read p = .ok (Utf8.encode text) →
      parse? text = some s → Reads fs p (.ok s)
  | unreadable {e : SystemError} : fs.read p = .error e → Reads fs p (.error (.unreadable p e))
  | noText {bytes : Bytes} : fs.read p = .ok bytes → (∀ text, bytes ≠ Utf8.encode text) →
      Reads fs p (.error (.unreadable p invalidText))
  | malformed {text : String} : fs.read p = .ok (Utf8.encode text) → parse? text = none →
      Reads fs p (.error (.malformed p))

/-- The lowest layer: the file that is named, else the first candidate that is a file, else the
defaults. -/
inductive FileLayer (env : Environment) (fs : FileSystem) :
    Option Path → Except SettingsError Settings → Prop where
  | named {p : Path} {r : Except SettingsError Settings} : Reads fs p r →
      FileLayer env fs (some p) r
  | found {before after : List Path} {p : Path} {r : Except SettingsError Settings} :
      candidates env = before ++ p :: after → (∀ q ∈ before, fs.isFile q = false) →
      fs.isFile p = true → Reads fs p r → FileLayer env fs none r
  | defaults : (∀ q ∈ candidates env, fs.isFile q = false) → FileLayer env fs none (.ok {})

theorem loadFile_eq_iff {fs : FileSystem} {p : Path} {r : Except SettingsError Settings} :
    loadFile fs p = r ↔ Reads fs p r := by
  have hdecode (text : String) : Utf8.decode? (Utf8.encode text) = some text :=
    Utf8.decode?_eq_some_iff.mpr rfl
  constructor
  · rintro rfl
    cases hr : fs.read p with
    | error e =>
      simp only [loadFile, hr]
      exact .unreadable hr
    | ok bytes =>
      cases hd : Utf8.decode? bytes with
      | none =>
        simp only [loadFile, hr, hd]
        refine .noText hr fun text he => ?_
        rw [he, hdecode] at hd
        cases hd
      | some text =>
        obtain rfl := Utf8.decode?_eq_some_iff.mp hd
        cases hp : parse? text with
        | none =>
          simp only [loadFile, hr, hdecode, hp]
          exact .malformed hr hp
        | some s =>
          simp only [loadFile, hr, hdecode, hp]
          exact .settings hr hp
  · rintro (⟨hr, hp⟩ | hr | @⟨bytes, hr, hn⟩ | ⟨hr, hp⟩)
    · simp only [loadFile, hr, hdecode, hp]
    · simp only [loadFile, hr]
    · have hd : Utf8.decode? bytes = none :=
        Option.eq_none_iff_forall_ne_some.mpr fun text h => hn text (Utf8.decode?_eq_some_iff.mp h)
      simp only [loadFile, hr, hd]
    · simp only [loadFile, hr, hdecode, hp]

theorem load_eq_iff {env : Environment} {fs : FileSystem} {explicit : Option Path}
    {r : Except SettingsError Settings} :
    load env fs explicit = r ↔ FileLayer env fs explicit r := by
  constructor
  · rintro rfl
    cases explicit with
    | some p => exact .named (loadFile_eq_iff.mp rfl)
    | none =>
      cases hf : (candidates env).find? fs.isFile with
      | none =>
        rw [load, Option.none_or, hf]
        exact .defaults fun q hq => Bool.not_eq_true _ ▸ List.find?_eq_none.mp hf q hq
      | some p =>
        obtain ⟨hp, before, after, hc, hb⟩ := List.find?_eq_some_iff_append.mp hf
        rw [load, Option.none_or, hf]
        refine .found hc (fun q hq => ?_) hp (loadFile_eq_iff.mp rfl)
        exact Bool.not_eq_true' _ ▸ hb q hq
  · rintro (h | ⟨hc, hb, hp, h⟩ | h)
    · exact loadFile_eq_iff.mpr h
    · have hf : (candidates env).find? fs.isFile = some _ :=
        List.find?_eq_some_iff_append.mpr ⟨hp, _, _, hc, fun q hq => by rw [hb q hq]; rfl⟩
      rw [load, Option.none_or, hf]
      exact loadFile_eq_iff.mpr h
    · have hf : (candidates env).find? fs.isFile = none :=
        List.find?_eq_none.mpr fun q hq => by rw [h q hq]; exact Bool.false_ne_true
      rw [load, Option.none_or, hf]

/-- The search paths of a pipeline. -/
def searchPaths (s : Settings) : Pipeline → SearchPaths
  | .device => s.device
  | .host => s.host

end Settings

namespace Arguments

/-- What the command line says about one pipeline. -/
def pipeline (a : Arguments) : Pipeline → PipelineConfig
  | .device =>
    { inputs := a.deviceInputs, output := a.deviceOutput, includeDirs := a.deviceIncludes,
      libraryDirs := a.deviceLibraryDirs }
  | .host =>
    { inputs := a.hostInputs, output := a.hostOutput, includeDirs := a.hostIncludes,
      libraryDirs := a.hostLibraryDirs, libraries := a.libraries }

end Arguments

namespace Config

/-- The configuration has in each field what the layers say. -/
structure FollowsLayers (s : Settings) (env : Environment) (a : Arguments) (verbose : UInt8)
    (c : Config) : Prop where
  inputs : ∀ p, (c.pipeline p).inputs = (a.pipeline p).inputs
  output : ∀ p, (c.pipeline p).output = (a.pipeline p).output
  includeDirs : ∀ p, (c.pipeline p).includeDirs =
    (s.searchPaths p).includeDirs ++ (a.pipeline p).includeDirs
  libraryDirs : ∀ p, (c.pipeline p).libraryDirs =
    (s.searchPaths p).libraryDirs ++ (a.pipeline p).libraryDirs
  hostLibraries : c.host.libraries = s.host.libraries ++ a.libraries
  deviceLibraries : c.device.libraries = s.device.libraries
  root : Overlaid (env.Sets "LLVM_TOOLS_BINARY_DIR") s.toolchain.root c.toolchain.root
  libclcInclude : Overlaid (env.Sets "LIBCLC_INC") s.toolchain.libclcInclude
    c.toolchain.libclcInclude
  libclcLib : Overlaid (env.Sets "LIBCLC_LIB") s.toolchain.libclcLib c.toolchain.libclcLib
  cudaInclude : Overlaid (env.Sets "CUDA_INC") s.toolchain.cudaInclude c.toolchain.cudaInclude
  cudaLib : Overlaid (env.Sets "CUDA_LIB") s.toolchain.cudaLib c.toolchain.cudaLib
  deviceTarget : c.toolchain.deviceTarget = s.toolchain.deviceTarget
  supportInclude : c.toolchain.supportInclude = s.toolchain.supportInclude
  pluginDir : c.toolchain.pluginDir = s.toolchain.pluginDir
  runtimeLibDir : c.toolchain.runtimeLibDir = s.toolchain.runtimeLibDir
  onlyCompile : c.stages.onlyCompile = true ↔ s.stages.onlyCompile = true ∨ a.onlyCompile = true
  compileAnalyzeTransformOnly : c.stages.compileAnalyzeTransformOnly = true ↔
    s.stages.compileAnalyzeTransformOnly = true ∨ a.compileAnalyzeTransformOnly = true
  emitIntermediate : c.stages.emitIntermediate = true ↔
    s.stages.emitIntermediate = true ∨ a.emitIntermediate = true
  backendStages : c.stages.backendStages = true ↔
    s.stages.backendStages = true ∨ a.backendStages = true
  analyze : c.stages.analyze = true ↔ s.stages.analyze = true ∧ a.noAnalyze = false
  transform : c.stages.transform = true ↔ s.stages.transform = true ∧ a.noTransform = false
  database : ∃ below, Overlaid (env.Sets "ALLEYCAT_DB") s.database below ∧
    Overlaid (a.database = some ·) below c.database
  tempDir : Overlaid (a.tempDir = some ·) s.tempDir c.tempDir
  dryRun : c.dryRun = a.dryRun
  verbose : c.verbose = verbose

theorem followsLayers_layered (s : Settings) (env : Environment) (a : Arguments) (verbose : UInt8) :
    FollowsLayers s env a verbose (layered s env a verbose) where
  inputs p := by cases p <;> exact List.nil_append _
  output p := by cases p <;> exact Option.or_none
  includeDirs p := by cases p <;> rfl
  libraryDirs p := by cases p <;> rfl
  hostLibraries := rfl
  deviceLibraries := rfl
  root := .of_or (env.setting?_eq_some_iff _)
  libclcInclude := .of_or (env.setting?_eq_some_iff _)
  libclcLib := .of_or (env.setting?_eq_some_iff _)
  cudaInclude := .of_or (env.setting?_eq_some_iff _)
  cudaLib := .of_or (env.setting?_eq_some_iff _)
  deviceTarget := rfl
  supportInclude := rfl
  pluginDir := rfl
  runtimeLibDir := rfl
  onlyCompile := Bool.or_eq_true_iff
  compileAnalyzeTransformOnly := Bool.or_eq_true_iff
  emitIntermediate := Bool.or_eq_true_iff
  backendStages := Bool.or_eq_true_iff
  analyze := Bool.and_eq_true_iff.trans (and_congr_right' (Bool.not_eq_true' _).to_iff)
  transform := Bool.and_eq_true_iff.trans (and_congr_right' (Bool.not_eq_true' _).to_iff)
  database := ⟨_, .of_or (env.setting?_eq_some_iff _), .of_or fun _ => Iff.rfl⟩
  tempDir := .of_or fun _ => Iff.rfl
  dryRun := Bool.false_or _
  verbose := rfl

attribute [ext] PipelineConfig ToolchainConfig StageOptions Config

variable {s : Settings} {env : Environment} {a : Arguments} {verbose : UInt8} {c : Config}

/-- The layers leave no field open. -/
theorem FollowsLayers.eq_layered (h : FollowsLayers s env a verbose c) :
    c = layered s env a verbose := by
  have hl := followsLayers_layered s env a verbose
  have hdatabase : c.database = (layered s env a verbose).database := by
    obtain ⟨below, henv, harg⟩ := h.database
    rw [harg.eq_or fun _ => Iff.rfl, henv.eq_or (env.setting?_eq_some_iff _)]
    rfl
  ext1
  case device =>
    exact PipelineConfig.ext ((h.inputs .device).trans (hl.inputs .device).symm)
      ((h.output .device).trans (hl.output .device).symm) (h.includeDirs .device)
      (h.libraryDirs .device) h.deviceLibraries
  case host =>
    exact PipelineConfig.ext ((h.inputs .host).trans (hl.inputs .host).symm)
      ((h.output .host).trans (hl.output .host).symm) (h.includeDirs .host)
      (h.libraryDirs .host) h.hostLibraries
  case toolchain =>
    exact ToolchainConfig.ext (h.root.eq_or (env.setting?_eq_some_iff _)) h.deviceTarget
      (h.libclcInclude.eq_or (env.setting?_eq_some_iff _))
      (h.libclcLib.eq_or (env.setting?_eq_some_iff _))
      (h.cudaInclude.eq_or (env.setting?_eq_some_iff _))
      (h.cudaLib.eq_or (env.setting?_eq_some_iff _)) h.supportInclude h.pluginDir h.runtimeLibDir
  case stages =>
    exact StageOptions.ext (Bool.eq_iff_iff.mpr (h.onlyCompile.trans hl.onlyCompile.symm))
      (Bool.eq_iff_iff.mpr
        (h.compileAnalyzeTransformOnly.trans hl.compileAnalyzeTransformOnly.symm))
      (Bool.eq_iff_iff.mpr (h.analyze.trans hl.analyze.symm))
      (Bool.eq_iff_iff.mpr (h.transform.trans hl.transform.symm))
      (Bool.eq_iff_iff.mpr (h.emitIntermediate.trans hl.emitIntermediate.symm))
      (Bool.eq_iff_iff.mpr (h.backendStages.trans hl.backendStages.symm))
  case database => exact hdatabase
  case tempDir => exact h.tempDir.eq_or fun _ => Iff.rfl
  case dryRun => exact h.dryRun.trans hl.dryRun.symm
  case verbose => exact h.verbose

theorem layered_eq_iff : layered s env a verbose = c ↔ FollowsLayers s env a verbose c :=
  ⟨fun h => h ▸ followsLayers_layered s env a verbose, fun h => h.eq_layered.symm⟩

/-- The configuration that is loaded is the one that follows the layers, and it fails to load just
where the file layer does. -/
theorem load_layered (env : Environment) (fs : FileSystem) (explicit : Option Path) (a : Arguments)
    (verbose : UInt8) :
    (∀ c, (Settings.load env fs explicit).map (layered · env a verbose) = .ok c ↔
      ∃ s, Settings.FileLayer env fs explicit (.ok s) ∧ FollowsLayers s env a verbose c) ∧
    ∀ e, (Settings.load env fs explicit).map (layered · env a verbose) = .error e ↔
      Settings.FileLayer env fs explicit (.error e) := by
  simp only [← Settings.load_eq_iff, ← layered_eq_iff]
  cases Settings.load env fs explicit with
  | error e => simp [Except.map]
  | ok s => simp [Except.map]

end Config

end CompilerDriver
