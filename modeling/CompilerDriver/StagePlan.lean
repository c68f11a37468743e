import CompilerDriver.Config
import CompilerDriver.Error
import CompilerDriver.Notice

/-! Which stages run. Activation follows from the flags alone; a configuration is then accepted
or refused as a whole, before any action exists. -/
namespace CompilerDriver

structure StagePlan where
  active : PerStage Bool
  deriving DecidableEq, Repr

namespace StagePlan

def isActive (plan : StagePlan) (s : Stage) : Bool := plan.active.get s

def activeStages (plan : StagePlan) : List Stage := Stage.all.filter plan.isActive

/-- The last active stage, the only one that may write the configured outputs. -/
def last (plan : StagePlan) : Stage := plan.activeStages.getLast?.getD .compile

def isLast (plan : StagePlan) (s : Stage) : Bool := plan.last == s

/-- What the flags ask for, before the backend stages are gated. -/
def requested (o : StageOptions) : PerStage Bool :=
  let link := !o.onlyCompile && !o.compileAnalyzeTransformOnly
  { compile := true
    analyze := !o.onlyCompile && o.analyze
    transform := !o.onlyCompile && o.transform
    link := link
    assemble := link && !o.emitIntermediate
    disassemble := !link && o.emitIntermediate }

/-- A backend stage is asked for but not enabled. -/
def backendWithheld (o : StageOptions) : Bool :=
  !o.backendStages && ((requested o).assemble || (requested o).disassemble)

def ofOptions (o : StageOptions) : StagePlan :=
  if backendWithheld o then ⟨{ requested o with assemble := false, disassemble := false }⟩
  else ⟨requested o⟩

def notices (o : StageOptions) : List Notice :=
  if backendWithheld o then [.backendDisabled] else []

/-- Runs a check and stops at its error. -/
def refuse (condition : Bool) (error : PipelineError) : Except PipelineError Unit :=
  if condition then .error error else .ok ()

/-- Refuses contradictory settings. Where several are wrong, the order of the checks decides
which one is named. -/
def validate (plan : StagePlan) (c : Config) : Except PipelineError Unit := do
  refuse (!c.device.isActive && !c.host.isActive) .noInputFiles
  refuse (c.device.output.isSome && !c.device.isActive) (.outputWithoutInput .device)
  refuse (c.device.isActive && c.device.output.isNone) (.missingOutput .device)
  refuse (c.host.isActive && c.host.output.isNone) (.missingOutput .host)
  refuse ((plan.isActive .analyze || plan.isActive .transform) && c.database.isNone)
    .databaseRequired
  refuse (c.host.output.isSome && !c.host.isActive) (.outputWithoutInput .host)
  refuse (!plan.isActive .link && 1 < c.device.inputs.length) (.multipleInputsWithoutLink .device)
  refuse (!plan.isActive .link && 1 < c.host.inputs.length) (.multipleInputsWithoutLink .host)
  refuse ((plan.isActive .link || plan.isActive .assemble) && c.stages.emitIntermediate)
    .intermediateAfterLink

/-- The plan of a configuration that can be built. -/
def resolve (c : Config) : Except PipelineError StagePlan := do
  let plan := ofOptions c.stages
  plan.validate c
  return plan

theorem refuse_eq_ok_iff {condition : Bool} {error : PipelineError} :
    refuse condition error = .ok () ↔ condition = false := by
  cases condition <;> simp [refuse]

theorem refuse_bind_eq_ok_iff {condition : Bool} {error : PipelineError}
    {rest : Except PipelineError Unit} :
    (do refuse condition error; rest) = .ok () ↔ condition = false ∧ rest = .ok () := by
  cases condition <;> simp [refuse, bind, Except.bind]

theorem refuse_eq_error_iff {condition : Bool} {error e : PipelineError} :
    refuse condition error = .error e ↔ condition = true ∧ error = e := by
  cases condition <;> simp [refuse]

theorem refuse_bind_eq_error_iff {condition : Bool} {error e : PipelineError}
    {rest : Except PipelineError Unit} :
    (do refuse condition error; rest) = .error e ↔
      (condition = true ∧ error = e) ∨ (condition = false ∧ rest = .error e) := by
  cases condition <;> simp [refuse, bind, Except.bind]

theorem isActive_compile_ofOptions (o : StageOptions) : (ofOptions o).isActive .compile = true := by
  unfold ofOptions
  split <;> rfl

/-- Assembly and disassembly exclude each other. -/
theorem not_assemble_and_disassemble (o : StageOptions) :
    ¬((ofOptions o).isActive .assemble = true ∧ (ofOptions o).isActive .disassemble = true) := by
  rcases o with ⟨a, b, c, d, e, f⟩
  cases a <;> cases b <;> cases e <;> cases f <;> simp [ofOptions, backendWithheld, requested,
    isActive, PerStage.get]

end StagePlan

end CompilerDriver
