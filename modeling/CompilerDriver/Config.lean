import CompilerDriver.Path
import CompilerDriver.Stage

/-! The configuration of one run. It is complete before planning starts and never changes
afterwards; a pipeline takes part exactly when it has inputs. -/
namespace CompilerDriver

structure PipelineConfig where
  inputs : List Path := []
  output : Option Path := none
  includeDirs : List Path := []
  libraryDirs : List Path := []
  libraries : List String := []
  deriving DecidableEq, Repr

namespace PipelineConfig

def isActive (c : PipelineConfig) : Bool := !c.inputs.isEmpty

/-- The same search paths with nothing to build. -/
def emptied (c : PipelineConfig) : PipelineConfig := { c with inputs := [], output := none }

end PipelineConfig

structure ToolchainConfig where
  root : Option Path := none
  deviceTarget : String := "nvptx64--nvidiacl"
  libclcInclude : Option Path := none
  libclcLib : Option Path := none
  cudaInclude : Option Path := none
  cudaLib : Option Path := none
  supportInclude : Path := .ofString "./inc"
  pluginDir : Path := .ofString "./lib"
  runtimeLibDir : Path := .ofString "./lib"
  deriving DecidableEq, Repr

/-- The flags that cut the stages short or change what they emit. -/
structure StageOptions where
  onlyCompile : Bool := false
  compileAnalyzeTransformOnly : Bool := false
  analyze : Bool := true
  transform : Bool := true
  emitIntermediate : Bool := false
  backendStages : Bool := false
  deriving DecidableEq, Repr

structure Config where
  device : PipelineConfig := {}
  host : PipelineConfig := {}
  toolchain : ToolchainConfig := {}
  stages : StageOptions := {}
  database : Option Path := none
  dryRun : Bool := false
  verbose : UInt8 := 0
  tempDir : Option Path := none
  deriving DecidableEq, Repr

namespace Config

def pipeline (c : Config) : Pipeline → PipelineConfig
  | .device => c.device
  | .host => c.host

def setPipeline (c : Config) (p : Pipeline) (settings : PipelineConfig) : Config :=
  match p with
  | .device => { c with device := settings }
  | .host => { c with host := settings }

/-- The configuration with one pipeline left out of the build. -/
def without (c : Config) (p : Pipeline) : Config := c.setPipeline p (c.pipeline p).emptied

end Config

end CompilerDriver
