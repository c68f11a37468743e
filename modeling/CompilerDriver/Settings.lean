import CompilerDriver.Environment
import CompilerDriver.FileSystem
import CompilerDriver.Toml.Document

/-! The settings file: where it is looked for, what it may say, and the layer of configuration it
makes. Inputs and outputs are never settings. -/
namespace CompilerDriver

structure SearchPaths where
  includeDirs : List Path := []
  libraryDirs : List Path := []
  libraries : List String := []
  deriving DecidableEq, Repr

structure Settings where
  toolchain : ToolchainConfig := {}
  stages : StageOptions := {}
  device : SearchPaths := {}
  host : SearchPaths := {}
  database : Option Path := none
  tempDir : Option Path := none
  deriving DecidableEq, Repr

inductive SettingsError where
  | unreadable (path : Path) (source : SystemError)
  | malformed (path : Path)
  deriving DecidableEq, Repr

namespace SettingsError

def text : SettingsError → String
  | unreadable path source =>
    "Failed to read config file " ++ path.display ++ ": " ++ source.text
  | malformed path => "Failed to parse config file " ++ path.display

end SettingsError

namespace Settings

open Toml

/-- The fields of a record. An array gives them by position, and a date has none of them. -/
def fields? (names : List String) : Value → Option Entries
  | .table _ entries => some entries
  | .array items => some (names.zip items)
  | .rows tables => some (names.zip (tables.map (.table .header)))
  | .datetime _ => some []
  | _ => none

/-- One field of a record, by default if it is missing. -/
def field {α : Type} (entries : Entries) (name : String) (decode : Value → Option α)
    (default : α) : Option α :=
  match entries.lookup name with
  | none => some default
  | some v => decode v

def boolean? : Value → Option Bool
  | .boolean b => some b
  | _ => none

def string? : Value → Option String
  | .string text => some text
  | _ => none

def path? (v : Value) : Option Path := (string? v).map .ofString

def somePath? (v : Value) : Option (Option Path) := (path? v).map some

def list? {α : Type} (decode : Value → Option α) : Value → Option (List α)
  | .array items => items.mapM decode
  | .rows tables => (tables.map (.table .header)).mapM decode
  | _ => none

def searchPaths? (v : Value) : Option SearchPaths := do
  let entries ← fields? ["include_dirs", "library_dirs", "libraries"] v
  return {
    includeDirs := ← field entries "include_dirs" (list? path?) []
    libraryDirs := ← field entries "library_dirs" (list? path?) []
    libraries := ← field entries "libraries" (list? string?) [] }

def stages? (v : Value) : Option StageOptions := do
  let entries ← fields? ["only_compile", "compile_analyze_transform_only", "analyze", "transform",
    "emit_intermediate", "backend_stages"] v
  let d : StageOptions := {}
  return {
    onlyCompile := ← field entries "only_compile" boolean? d.onlyCompile
    compileAnalyzeTransformOnly := ← field entries "compile_analyze_transform_only" boolean?
      d.compileAnalyzeTransformOnly
    analyze := ← field entries "analyze" boolean? d.analyze
    transform := ← field entries "transform" boolean? d.transform
    emitIntermediate := ← field entries "emit_intermediate" boolean? d.emitIntermediate
    backendStages := ← field entries "backend_stages" boolean? d.backendStages }

def toolchain? (v : Value) : Option ToolchainConfig := do
  let entries ← fields? ["root", "device_target", "libclc_include", "libclc_lib", "cuda_include",
    "cuda_lib", "support_include", "plugin_dir", "runtime_lib_dir"] v
  let d : ToolchainConfig := {}
  return {
    root := ← field entries "root" somePath? d.root
    deviceTarget := ← field entries "device_target" string? d.deviceTarget
    libclcInclude := ← field entries "libclc_include" somePath? d.libclcInclude
    libclcLib := ← field entries "libclc_lib" somePath? d.libclcLib
    cudaInclude := ← field entries "cuda_include" somePath? d.cudaInclude
    cudaLib := ← field entries "cuda_lib" somePath? d.cudaLib
    supportInclude := ← field entries "support_include" path? d.supportInclude
    pluginDir := ← field entries "plugin_dir" path? d.pluginDir
    runtimeLibDir := ← field entries "runtime_lib_dir" path? d.runtimeLibDir }

/-- The settings in the root table of a document. Other entries are ignored. -/
def ofEntries? (entries : Entries) : Option Settings := do
  return {
    toolchain := ← field entries "toolchain" toolchain? {}
    stages := ← field entries "stages" stages? {}
    device := ← field entries "bsp" searchPaths? {}
    host := ← field entries "host" searchPaths? {}
    database := ← field entries "database" somePath? none
    tempDir := ← field entries "temp_dir" somePath? none }

def parse? (text : String) : Option Settings := (Toml.parse? text).bind ofEntries?

def invalidText : SystemError := .custom .invalidData "stream did not contain valid UTF-8"

def loadFile (fs : FileSystem) (p : Path) : Except SettingsError Settings :=
  match fs.read p with
  | .error error => .error (.unreadable p error)
  | .ok bytes =>
    match Utf8.decode? bytes with
    | none => .error (.unreadable p invalidText)
    | some text =>
      match parse? text with
      | some settings => .ok settings
      | none => .error (.malformed p)

end Settings

namespace Environment

def home? (env : Environment) : Option Path :=
  match env.get? "HOME" with
  | some bytes => if bytes = [] then .none else some ⟨bytes⟩
  | .none => .none

/-- The user's directory of configuration files. A relative setting is disregarded. -/
def configDir? (env : Environment) : Option Path :=
  match ((env.get? "XDG_CONFIG_HOME").map Path.mk).filter Path.isAbsolute with
  | some dir => some dir
  | .none => env.home?.map (·.child ".config")

end Environment

namespace Settings

def localFile : Path := .ofString "alleycat.toml"

/-- Where a settings file may stand: the working directory, the home directory, and the user's
directory of configuration files. -/
def candidates (env : Environment) : List Path :=
  localFile :: (env.home?.map (·.child ".alleycat.toml")).toList
    ++ (env.configDir?.map fun dir => (dir.child "alleycat").child "config.toml").toList

/-- The settings of the named file, or of the first candidate that is a file, or the defaults. A
file that is there but makes no sense is never passed over. -/
def load (env : Environment) (fs : FileSystem) (explicit : Option Path) :
    Except SettingsError Settings :=
  match explicit.or ((candidates env).find? fs.isFile) with
  | some p => loadFile fs p
  | none => .ok {}

/-- The configuration that the settings start. -/
def toConfig (s : Settings) : Config :=
  let pipeline (paths : SearchPaths) : PipelineConfig :=
    { includeDirs := paths.includeDirs, libraryDirs := paths.libraryDirs,
      libraries := paths.libraries }
  { device := pipeline s.device
    host := pipeline s.host
    toolchain := s.toolchain
    stages := s.stages
    database := s.database
    tempDir := s.tempDir }

end Settings

end CompilerDriver
