import CompilerDriver.StageActions
import CompilerDriver.StagePlan

/-! From a stage plan to actions. Every active stage visits the device pipeline before the host
pipeline. Compile, analyze and transform bind each unit by itself; link merges a pipeline's units
into a combined unit; assemble and disassemble bind the one unit that carries the result. -/
namespace CompilerDriver

/-- The units of one pipeline: one for each input, and the combined unit once it is linked. -/
structure PipelineUnits where
  units : List CompilationUnit
  combined : Option CompilationUnit := none
  deriving DecidableEq, Repr

namespace PipelineUnits

def ofInputs (inputs : List Path) : PipelineUnits := ⟨inputs.map .ofSource, none⟩

def isActive (u : PipelineUnits) : Bool := !u.units.isEmpty

/-- Every unit, the combined one last. -/
def all (u : PipelineUnits) : List CompilationUnit := u.units ++ u.combined.toList

end PipelineUnits

/-- The outcome of assembly: the units with their artifacts, and the actions to run. -/
structure BuildPlan where
  stages : StagePlan
  device : PipelineUnits
  host : PipelineUnits
  actions : StageActions := {}
  deriving DecidableEq, Repr

namespace BuildPlan

def pipeline (plan : BuildPlan) : Pipeline → PipelineUnits
  | .device => plan.device
  | .host => plan.host

def setPipeline (plan : BuildPlan) (p : Pipeline) (units : PipelineUnits) : BuildPlan :=
  match p with
  | .device => { plan with device := units }
  | .host => { plan with host := units }

/-- Sources as units, and no actions yet. -/
def initial (stages : StagePlan) (c : Config) : BuildPlan :=
  { stages := stages, device := .ofInputs c.device.inputs, host := .ofInputs c.host.inputs }

end BuildPlan

/-- A step of assembly. What it does to the workspace stays, also when it fails. -/
abbrev AssemblyM := ExceptT PipelineError (StateM Workspace)

def AssemblyM.ofExcept {α : Type} : Except PipelineError α → AssemblyM α
  | .ok a => pure a
  | .error error => throw error

/-- What every step of assembly can look up. -/
structure AssemblyContext where
  settings : BuildSettings
  stages : StagePlan

namespace AssemblyContext

def config (ctx : AssemblyContext) : Config := ctx.settings.config

def finalOutput (ctx : AssemblyContext) (p : Pipeline) : Except PipelineError Path :=
  match (ctx.config.pipeline p).output with
  | some path => .ok path
  | none => .error (.missingOutput p)

/-- The form of temporaries that a stage writes. The passes write bitcode whatever is asked
for. -/
def tempFormat (ctx : AssemblyContext) : Stage → Format
  | .analyze | .transform => .irBinary
  | _ => if ctx.config.stages.emitIntermediate then .irText else .irBinary

end AssemblyContext

namespace CompilationUnit

/-- Gives the unit its next output: the final path if there is one, else a new temporary. -/
def attachOutput (u : CompilationUnit) (final : Option Path) (extension : String) :
    AssemblyM CompilationUnit :=
  match final with
  | some path => pure (u.append path)
  | none => fun w => u.appendTemporary w extension

def unrecognized (u : CompilationUnit) (p : Pipeline) (s : Stage) : PipelineError :=
  .unrecognizedInputFormat (u.nextInput.getD (.ofString u.name)) p s

/-- The kind of action for an artifact of the unit at a stage. -/
def kindFor (u : CompilationUnit) (p : Pipeline) (s : Stage) (format : Option Format) :
    Except PipelineError ActionKind :=
  match ActionKind.dispatch p s format with
  | some kind => .ok kind
  | none => .error (u.unrecognized p s)

end CompilationUnit

namespace AssemblyContext

open CompilationUnit

/-- Builds an action on the current file system. -/
def buildAction (ctx : AssemblyContext) (kind : ActionKind) (units : List CompilationUnit) :
    AssemblyM Action := do
  let w ← get
  .ofExcept (Action.build ctx.settings w.fs kind units)

/-- One action for a unit, which moves on to a new output. -/
def assembleUnit (ctx : AssemblyContext) (p : Pipeline) (s : Stage) (final : Option Path)
    (extension : String) (u : CompilationUnit) (actions : StageActions) :
    AssemblyM (CompilationUnit × StageActions) := do
  let kind ← .ofExcept (u.kindFor p s u.nextFormat)
  let u ← u.attachOutput final extension
  let action ← ctx.buildAction kind [u]
  let (actions, id) := actions.push s action
  return (u.recordAction id, actions)

def assembleUnits (ctx : AssemblyContext) (p : Pipeline) (s : Stage) (final : Option Path)
    (extension : String) :
    List CompilationUnit → StageActions → AssemblyM (List CompilationUnit × StageActions)
  | [], actions => pure ([], actions)
  | u :: rest, actions => do
    let (u, actions) ← ctx.assembleUnit p s final extension u actions
    let (rest, actions) ← ctx.assembleUnits p s final extension rest actions
    return (u :: rest, actions)

/-- Binds each unit of the pipeline by itself. -/
def perUnit (ctx : AssemblyContext) (s : Stage) (p : Pipeline) (plan : BuildPlan) :
    AssemblyM BuildPlan := do
  let final ← if ctx.stages.isLast s then
      some <$> .ofExcept (ctx.finalOutput p)
    else pure none
  let (units, actions) ← ctx.assembleUnits p s final (ctx.tempFormat s).extension
    (plan.pipeline p).units plan.actions
  return { plan.setPipeline p { plan.pipeline p with units := units } with actions := actions }

/-- The kind of link action: every unit must be accepted, and the last one decides. -/
def linkKind (p : Pipeline) : List CompilationUnit → Option ActionKind →
    Except PipelineError (Option ActionKind)
  | [], kind => .ok kind
  | u :: rest, _ => do
    let kind ← u.kindFor p .link u.outputFormat
    linkKind p rest (some kind)

/-- Merges the pipeline's units into its combined unit, which is made on first use. -/
def link (ctx : AssemblyContext) (p : Pipeline) (plan : BuildPlan) : AssemblyM BuildPlan := do
  let output ← .ofExcept (ctx.finalOutput p)
  let units := (plan.pipeline p).units
  match ← .ofExcept (linkKind p units none) with
  | none => throw (.invalidActionArguments "link" Arity.merge.description 1)
  | some kind =>
    let combined := (plan.pipeline p).combined.getD (.combined output)
    let final := if ctx.stages.isLast .link then some output else none
    let combined ← combined.attachOutput final (ctx.tempFormat .link).extension
    let action ← ctx.buildAction kind (combined :: units)
    let (actions, id) := plan.actions.push .link action
    let units := { plan.pipeline p with combined := some (combined.recordAction id) }
    return { plan.setPipeline p units with actions := actions }

/-- The unit that carries a pipeline's result: the combined one, or else the only one. -/
def carrierOf (s : Stage) (units : PipelineUnits) : Except PipelineError CompilationUnit :=
  match units.combined, units.units with
  | some combined, _ => .ok combined
  | none, [only] => .ok only
  | none, others =>
    .error (.invalidActionArguments s.name Arity.single.description others.length)

def setCarrier (units : PipelineUnits) (u : CompilationUnit) : PipelineUnits :=
  match units.combined with
  | some _ => { units with combined := some u }
  | none => { units with units := [u] }

/-- Binds the carrier to the final output. Only the last stage may do this. -/
def carrier (ctx : AssemblyContext) (s : Stage) (p : Pipeline) (plan : BuildPlan) :
    AssemblyM BuildPlan := do
  if !ctx.stages.isLast s then throw (.stageOrdering s)
  let output ← .ofExcept (ctx.finalOutput p)
  let u ← .ofExcept (carrierOf s (plan.pipeline p))
  let (u, actions) ← ctx.assembleUnit p s (some output) "" u plan.actions
  return { plan.setPipeline p (setCarrier (plan.pipeline p) u) with actions := actions }

end AssemblyContext

/-- How one stage is assembled. -/
inductive StageAssembler where
  | perUnit (stage : Stage)
  | link
  | carrier (stage : Stage)
  deriving DecidableEq, Repr

namespace StageAssembler

def stage : StageAssembler → Stage
  | perUnit s | carrier s => s
  | link => .link

def run (a : StageAssembler) (ctx : AssemblyContext) (p : Pipeline) (plan : BuildPlan) :
    AssemblyM BuildPlan :=
  match a with
  | perUnit s => ctx.perUnit s p plan
  | link => ctx.link p plan
  | carrier s => ctx.carrier s p plan

/-- Both pipelines, the device first. A pipeline without units is passed over. -/
def runPipelines (a : StageAssembler) (ctx : AssemblyContext) (plan : BuildPlan) :
    AssemblyM BuildPlan :=
  Pipeline.all.foldlM (fun plan p =>
    if (plan.pipeline p).isActive then a.run ctx p plan else pure plan) plan

end StageAssembler

/-- Stage assemblers in stage order. -/
structure Assembler where
  steps : List StageAssembler
  deriving DecidableEq, Repr

namespace Assembler

/-- Sorts by stage. Steps of one stage keep their order. -/
def ofSteps (steps : List StageAssembler) : Assembler :=
  ⟨Stage.all.flatMap fun s => steps.filter (·.stage = s)⟩

def standard : Assembler :=
  ofSteps [.perUnit .compile, .perUnit .analyze, .perUnit .transform, .link, .carrier .assemble,
    .carrier .disassemble]

/-- Runs the steps whose stage is active. -/
def assemble (a : Assembler) (settings : BuildSettings) (stages : StagePlan) :
    AssemblyM BuildPlan :=
  (a.steps.filter fun step => stages.isActive step.stage).foldlM
    (fun plan step => step.runPipelines ⟨settings, stages⟩ plan)
    (.initial stages settings.config)

/-- The inputs of each pipeline that has some, as announced before assembly. -/
def notices (c : Config) : List Notice :=
  (Pipeline.all.filter fun p => (c.pipeline p).isActive).map fun p =>
    .inputs p (c.pipeline p).inputs

end Assembler

end CompilerDriver
