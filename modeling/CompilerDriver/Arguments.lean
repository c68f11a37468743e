import CompilerDriver.Options.Parse
import CompilerDriver.Settings

/-! What the command line says about a build, and the configuration made of all layers: settings
below environment below command line. -/
namespace CompilerDriver

structure Arguments where
  deviceInputs : List Path := []
  hostInputs : List Path := []
  deviceOutput : Option Path := none
  hostOutput : Option Path := none
  onlyCompile : Bool := false
  compileAnalyzeTransformOnly : Bool := false
  emitIntermediate : Bool := false
  noAnalyze : Bool := false
  noTransform : Bool := false
  backendStages : Bool := false
  dryRun : Bool := false
  database : Option Path := none
  deviceIncludes : List Path := []
  deviceLibraryDirs : List Path := []
  hostIncludes : List Path := []
  hostLibraryDirs : List Path := []
  libraries : List String := []
  tempDir : Option Path := none
  deriving DecidableEq, Repr

/-- The values of an option, over all its occurrences. -/
def valuesOf (found : List Occurrence) (o : Opt) : List Bytes :=
  (found.filter (·.option = o)).flatMap Occurrence.values

def pathsOf (found : List Occurrence) (o : Opt) : List Path := (valuesOf found o).map Path.mk

def pathOf? (found : List Occurrence) (o : Opt) : Option Path := (pathsOf found o).head?

def isGiven (found : List Occurrence) (o : Opt) : Bool := found.any (·.option = o)

namespace Arguments

def ofOccurrences (found : List Occurrence) : Arguments :=
  { deviceInputs := pathsOf found .deviceInputs
    hostInputs := pathsOf found .hostInputs
    deviceOutput := pathOf? found .deviceOutput
    hostOutput := pathOf? found .hostOutput
    onlyCompile := isGiven found .onlyCompile
    compileAnalyzeTransformOnly := isGiven found .compileAnalyzeTransformOnly
    emitIntermediate := isGiven found .emitIntermediate
    noAnalyze := isGiven found .noAnalyze
    noTransform := isGiven found .noTransform
    backendStages := isGiven found .backendStages
    dryRun := isGiven found .dryRun
    database := pathOf? found .database
    deviceIncludes := pathsOf found .deviceInclude
    deviceLibraryDirs := pathsOf found .deviceLibraryDir
    hostIncludes := pathsOf found .hostInclude
    hostLibraryDirs := pathsOf found .hostLibraryDir
    libraries := (valuesOf found .library).map Utf8.lossy
    tempDir := pathOf? found .tempDir }

/-- Reads a command line that has nothing but build options. -/
def parse (words : List Bytes) : Except ParseStop Arguments :=
  (parseOptions Opt.build words).map ofOccurrences

/-- Lays the arguments over a configuration: lists are appended, values replaced, and switches
only switched one way. -/
def applyTo (a : Arguments) (c : Config) : Config :=
  { c with
    device := { c.device with
      inputs := c.device.inputs ++ a.deviceInputs
      output := a.deviceOutput.or c.device.output
      includeDirs := c.device.includeDirs ++ a.deviceIncludes
      libraryDirs := c.device.libraryDirs ++ a.deviceLibraryDirs }
    host := { c.host with
      inputs := c.host.inputs ++ a.hostInputs
      output := a.hostOutput.or c.host.output
      includeDirs := c.host.includeDirs ++ a.hostIncludes
      libraryDirs := c.host.libraryDirs ++ a.hostLibraryDirs
      libraries := c.host.libraries ++ a.libraries }
    stages := { c.stages with
      onlyCompile := c.stages.onlyCompile || a.onlyCompile
      compileAnalyzeTransformOnly :=
        c.stages.compileAnalyzeTransformOnly || a.compileAnalyzeTransformOnly
      emitIntermediate := c.stages.emitIntermediate || a.emitIntermediate
      backendStages := c.stages.backendStages || a.backendStages
      analyze := c.stages.analyze && !a.noAnalyze
      transform := c.stages.transform && !a.noTransform }
    database := a.database.or c.database
    tempDir := a.tempDir.or c.tempDir
    dryRun := c.dryRun || a.dryRun }

end Arguments

namespace Config

/-- The configuration of all layers. -/
def layered (settings : Settings) (env : Environment) (a : Arguments) (verbose : UInt8) : Config :=
  { a.applyTo (settings.toConfig.withEnvironment env) with verbose := verbose }

end Config

end CompilerDriver
