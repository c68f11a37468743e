import CompilerDriver.Action.Template
import CompilerDriver.CompilationUnit

/-! One external step: its command, the files it is bound to, and what became of it. -/
namespace CompilerDriver

/-- What is known of an action's run. A launch that failed is kept as kind and text. -/
inductive ActionResult where
  | notRun
  | succeeded
  | failed
  deriving DecidableEq, Repr

structure Action where
  kind : ActionKind
  template : Template
  binding : Binding
  result : ActionResult := .notRun
  launchError : Option SystemError := none
  deriving DecidableEq, Repr

namespace Action

def command (a : Action) : Command := a.template.command a.binding

/-- The same action on renamed files. -/
def rename (f : Path → Path) (a : Action) : Action := { a with binding := a.binding.map f }

/-- The files of an action on units. The first unit is written; a kind that merges reads the
outputs of the others, and every other kind reads the first unit's own input. The copy names its
input first, and so asks for it first. -/
def bind (kind : ActionKind) (target : CompilationUnit) (others : List CompilationUnit) :
    Except PipelineError Binding :=
  match kind.arity, kind with
  | .merge, _ => do
    let output ← target.currentOutput
    let inputs ← others.mapM CompilationUnit.currentOutput
    return ⟨output, inputs⟩
  | .single, .copy => do
    let input ← target.currentInput
    let output ← target.currentOutput
    return ⟨output, [input]⟩
  | .single, _ => do
    let output ← target.currentOutput
    let input ← target.currentInput
    return ⟨output, [input]⟩

/-- Builds the action of a kind on units, the written one first. -/
def build (s : BuildSettings) (fs : FileSystem) (kind : ActionKind)
    (units : List CompilationUnit) : Except PipelineError Action := do
  kind.checkArity units.length
  let template ← s.template fs kind
  match units with
  | [] => .error (.invalidActionArguments kind.name kind.arity.description 0)
  | target :: others =>
    let binding ← bind kind target others
    return { kind := kind, template := template, binding := binding }

end Action

end CompilerDriver
