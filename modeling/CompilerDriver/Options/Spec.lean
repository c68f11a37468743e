import CompilerDriver.Utf8

/-! The options of the command line: their spellings, and what each takes. -/
namespace CompilerDriver

inductive Opt where
  | deviceInputs
  | hostInputs
  | deviceOutput
  | hostOutput
  | onlyCompile
  | compileAnalyzeTransformOnly
  | emitIntermediate
  | noAnalyze
  | noTransform
  | backendStages
  | dryRun
  | database
  | deviceInclude
  | deviceLibraryDir
  | hostInclude
  | hostLibraryDir
  | library
  | tempDir
  | help
  | verbose
  | quiet
  | logLevel
  | logFormat
  | settingsFile
  | directory
  | version
  deriving DecidableEq, Repr

/-- What a value must be. A path must not be empty, and a text must be well-formed. -/
inductive ValueKind where
  | path
  | text
  | choice (names : List String)
  deriving DecidableEq, Repr

/-- What an option takes, and how often it may be given. -/
inductive OptShape where
  /-- Nothing, at most once. -/
  | switch
  /-- Nothing, any number of times. -/
  | counter
  /-- One value, at most once. -/
  | single (value : ValueKind)
  /-- One value, any number of times. -/
  | repeated (value : ValueKind)
  /-- One value or more, any number of times. -/
  | several (value : ValueKind)
  /-- Nothing; it ends the reading of the command line. -/
  | inquiry
  deriving DecidableEq, Repr

namespace Opt

/-- The options that describe a build. -/
def build : List Opt :=
  [.deviceInputs, .hostInputs, .deviceOutput, .hostOutput, .onlyCompile,
   .compileAnalyzeTransformOnly, .emitIntermediate, .noAnalyze, .noTransform, .backendStages,
   .dryRun, .database, .deviceInclude, .deviceLibraryDir, .hostInclude, .hostLibraryDir, .library,
   .tempDir, .help]

/-- All options, with those of the session around the build. -/
def all : List Opt :=
  build ++ [.verbose, .quiet, .logLevel, .logFormat, .settingsFile, .directory, .version]

/-- The long spellings, which follow two hyphens. -/
def names : Opt → List String
  | deviceInputs => ["bsp-in"]
  | hostInputs => ["host-in"]
  | deviceOutput => ["bsp-out"]
  | hostOutput => ["host-out"]
  | onlyCompile => []
  | compileAnalyzeTransformOnly => []
  | emitIntermediate => ["emit-llvm"]
  | noAnalyze => ["no-analyze", "fno-analyze"]
  | noTransform => ["no-transform", "fno-transform"]
  | backendStages => ["backend-stages"]
  | dryRun => ["dry-run", "###"]
  | database => ["db"]
  | deviceInclude => ["bsp-include"]
  | deviceLibraryDir => ["bsp-lib-dir"]
  | hostInclude => ["host-include"]
  | hostLibraryDir => ["host-lib-dir"]
  | library => []
  | tempDir => ["temp-dir"]
  | help => ["help"]
  | verbose => ["verbose"]
  | quiet => ["quiet"]
  | logLevel => ["log"]
  | logFormat => ["log-format"]
  | settingsFile => ["config"]
  | directory => ["directory"]
  | version => ["version"]

/-- The short spelling, which follows one hyphen. -/
def letter? : Opt → Option Char
  | onlyCompile => some 'S'
  | compileAnalyzeTransformOnly => some 'c'
  | library => some 'l'
  | help => some 'h'
  | verbose => some 'v'
  | quiet => some 'q'
  | directory => some 'C'
  | version => some 'V'
  | _ => none

def shape : Opt → OptShape
  | deviceInputs | hostInputs => .several .path
  | deviceOutput | hostOutput | database | tempDir | settingsFile | directory => .single .path
  | onlyCompile | compileAnalyzeTransformOnly | emitIntermediate | noAnalyze | noTransform
  | backendStages | dryRun | quiet => .switch
  | deviceInclude | deviceLibraryDir | hostInclude | hostLibraryDir => .repeated .path
  | library => .repeated .text
  | logLevel => .single (.choice ["error", "warn", "info", "debug", "trace"])
  | logFormat => .single (.choice ["pretty", "json"])
  | verbose => .counter
  | help | version => .inquiry

/-- What stands for a value of the option in a description of the command line. -/
def placeholder : Opt → String
  | deviceInclude | deviceLibraryDir | hostInclude | hostLibraryDir => "PATH"
  | library => "NAME"
  | tempDir => "DIR"
  | logLevel => "LOG"
  | logFormat => "LOG_FORMAT"
  | settingsFile => "CONFIG"
  | directory => "DIRECTORY"
  | _ => "FILE"

/-- The first long spelling of the option or else its letter, and what follows it. -/
def shown (o : Opt) : String :=
  let spelling :=
    match o.names, o.letter? with
    | name :: _, _ => "--" ++ name
    | [], some letter => "-" ++ letter.toString
    | [], none => ""
  spelling ++ match o.shape with
    | .switch | .inquiry => ""
    | .counter => "..."
    | .single _ | .repeated _ => " <" ++ o.placeholder ++ ">"
    | .several _ => " <" ++ o.placeholder ++ ">..."

/-- The kind of the option's values, if it takes any. -/
def value? (o : Opt) : Option ValueKind :=
  match o.shape with
  | .switch | .counter | .inquiry => none
  | .single value | .repeated value | .several value => some value

def takesValue (o : Opt) : Bool := o.value?.isSome

/-- Whether the option may be given again. -/
def isRepeatable (o : Opt) : Bool :=
  match o.shape with
  | .counter | .repeated _ | .several _ => true
  | .switch | .single _ | .inquiry => false

/-- Whether the option takes one more value after some. -/
def acceptsMore (o : Opt) (found : Nat) : Bool :=
  match o.shape with
  | .switch | .counter | .inquiry => false
  | .single _ | .repeated _ => found == 0
  | .several _ => true

end Opt

end CompilerDriver
