import CompilerDriver.Arguments
import CompilerDriver.Build
import CompilerDriver.Diagnostic

/-! One session of the command-line tool: change the directory, load the settings, check that the
inputs exist, and build. A step that fails ends the session, and no later step has any effect. -/
namespace CompilerDriver

/-- A command line that makes sense. -/
structure Invocation where
  arguments : Arguments := {}
  directory : Option Path := none
  settingsFile : Option Path := none
  verbose : UInt8 := 0
  log : Log := {}
  deriving DecidableEq, Repr

namespace Invocation

/-- How often an option was given, as far as one byte can tell. -/
def countOf (found : List Occurrence) (o : Opt) : UInt8 :=
  UInt8.ofNat (min 255 (found.countP (·.option = o)))

def ofOccurrences (found : List Occurrence) : Invocation :=
  let verbose := countOf found .verbose
  let named? (o : Opt) : Option String := (valuesOf found o).head?.map Utf8.lossy
  let byCount := if isGiven found .quiet then .error else .ofVerbosity verbose
  { arguments := .ofOccurrences found
    directory := pathOf? found .directory
    settingsFile := pathOf? found .settingsFile
    verbose := verbose
    log :=
      { level := ((named? .logLevel).bind LogLevel.ofName?).getD byCount
        format := ((named? .logFormat).bind LogFormat.ofName?).getD .pretty } }

def parse (words : List Bytes) : Except ParseStop Invocation :=
  (parseOptions Opt.all words).map ofOccurrences

end Invocation

/-- Everything a session leaves behind. -/
structure SessionOutcome where
  fs : FileSystem
  names : NameSupply
  failure : Option SessionError := none
  /-- What was written on the standard output. -/
  printed : Bytes := []
  /-- The lines that report success. -/
  reports : List String := []
  /-- Every temporary that was created, in order. -/
  temporaries : List Path := []
  calls : List Call := []
  /-- The temporaries that could not be removed, and why. -/
  stuck : List (Path × SystemError) := []
  notices : List Notice := []

namespace SessionOutcome

def exitCode (o : SessionOutcome) : UInt8 := if o.failure.isSome then 1 else 0

end SessionOutcome

namespace BuildPlan

/-- The output a pipeline reports: that of its combined unit, or else of its first one. -/
def reportedOutput? (plan : BuildPlan) (p : Pipeline) : Option Path :=
  ((plan.pipeline p).combined.or (plan.pipeline p).units.head?).bind fun u =>
    u.currentOutput.toOption

def reports (plan : BuildPlan) : List String :=
  Pipeline.all.filterMap fun p => (plan.reportedOutput? p).map fun output =>
    "✓ " ++ p.name ++ " output written to " ++ output.display

end BuildPlan

namespace Session

/-- What is printed when the version is asked for. -/
def versionLine : String := "alleycatcc 0.1.0"

def enter (i : Invocation) (fs : FileSystem) : Except SessionError FileSystem :=
  match i.directory with
  | some dir => (fs.changeDir dir).mapError .io
  | none => .ok fs

/-- Refuses the first input that is missing. A dry run needs none of them. -/
def checkInputs (c : Config) (fs : FileSystem) : Except SessionError Unit :=
  if c.dryRun then .ok ()
  else match (c.device.inputs ++ c.host.inputs).find? fun input => !fs.contains input with
    | some input => .error (.invalidInput ("Input file does not exist: " ++ input.display))
    | none => .ok ()

/-- The directory and the configuration of a session that may build. -/
def prepare (env : Environment) (i : Invocation) (fs : FileSystem) :
    Except SessionError (Config × FileSystem) := do
  let fs ← enter i fs
  let settings ← (Settings.load env fs i.settingsFile).mapError fun e => .settings e.text
  let c := Config.layered settings env i.arguments i.verbose
  checkInputs c fs
  return (c, fs)

def run (env : Environment) (runner : Runner) (i : Invocation) (fs : FileSystem)
    (names : NameSupply) : SessionOutcome :=
  match prepare env i fs with
  | .error error => { fs := fs, names := names, failure := some error }
  | .ok (c, fs) =>
    let built := Build.run env runner c fs names
    { fs := built.fs
      names := built.names
      failure := match built.result with
        | .ok _ => none
        | .error error => some (.pipeline error)
      printed := built.calls.flatMap Call.printed
      reports := match built.result with
        | .ok summary => if i.verbose = 0 then [] else summary.plan.reports
        | .error _ => []
      temporaries := built.temporaries
      calls := built.calls
      stuck := built.stuck
      notices := built.notices }

end Session

end CompilerDriver
