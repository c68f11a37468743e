import CompilerDriver.Error
import CompilerDriver.Format

/-! The steps the driver knows, and which of them handles an artifact at a stage. -/
namespace CompilerDriver

inductive ActionKind where
  | clCompile
  | deviceIrCompile
  | deviceAnalyze
  | deviceTransform
  | deviceLink
  | deviceAssemble
  | cxxCompile
  | hostIrCompile
  | hostTransform
  | hostLink
  | hostAssemble
  | disassemble
  | copy
  deriving DecidableEq, Repr

/-- How many units an action binds: one, or an output unit and the units merged into it. -/
inductive Arity where
  | single
  | merge
  deriving DecidableEq, Repr

namespace Arity

def Accepts : Arity → Nat → Prop
  | single, found => found = 1
  | merge, found => 2 ≤ found

instance (a : Arity) (found : Nat) : Decidable (a.Accepts found) := by
  cases a <;> unfold Accepts <;> infer_instance

def description : Arity → String
  | single => "exactly one unit"
  | merge => "an output unit and at least one input unit"

end Arity

namespace ActionKind

def all : List ActionKind :=
  [.clCompile, .deviceIrCompile, .deviceAnalyze, .deviceTransform, .deviceLink, .deviceAssemble,
   .cxxCompile, .hostIrCompile, .hostTransform, .hostLink, .hostAssemble, .disassemble, .copy]

def name : ActionKind → String
  | clCompile => "cl-compile"
  | deviceIrCompile => "bsp-ll-compile"
  | deviceAnalyze => "bsp-analyze"
  | deviceTransform => "bsp-transform"
  | deviceLink => "bsp-link"
  | deviceAssemble => "bsp-asm"
  | cxxCompile => "cc-compile"
  | hostIrCompile => "host-ll-compile"
  | hostTransform => "host-transform"
  | hostLink => "host-link"
  | hostAssemble => "host-asm"
  | disassemble => "disasm"
  | copy => "cp"

def arity : ActionKind → Arity
  | deviceLink | hostLink => .merge
  | _ => .single

/-- Refuses a number of units that the kind does not bind. -/
def checkArity (kind : ActionKind) (found : Nat) : Except PipelineError Unit :=
  if kind.arity.Accepts found then .ok ()
  else .error (.invalidActionArguments kind.name kind.arity.description found)

/-- The action for an intermediate form after compile. The host has no analysis pass; a copy keeps
its artifacts in step. -/
def ofIntermediate : Pipeline → Stage → ActionKind
  | .device, .compile => deviceIrCompile
  | .host, .compile => hostIrCompile
  | .device, .analyze => deviceAnalyze
  | .host, .analyze => copy
  | .device, .transform => deviceTransform
  | .host, .transform => hostTransform
  | .device, .link => deviceLink
  | .host, .link => hostLink
  | .device, .assemble => deviceAssemble
  | .host, .assemble => hostAssemble
  | _, .disassemble => disassemble

/-- The action for an artifact of a form at a stage, if the form is accepted there. Sources are
accepted by the compile stage of their own pipeline alone. -/
def dispatch (p : Pipeline) (s : Stage) : Option Format → Option ActionKind
  | none => none
  | some .openCl => if p = .device ∧ s = .compile then some clCompile else none
  | some .cxxSource => if p = .host ∧ s = .compile then some cxxCompile else none
  | some .irText | some .irBinary => some (ofIntermediate p s)

theorem mem_all (k : ActionKind) : k ∈ all := by cases k <;> simp [all]

theorem dispatch_intermediate (p : Pipeline) (s : Stage) {f : Format}
    (h : f.isIntermediate = true) : dispatch p s (some f) = some (ofIntermediate p s) := by
  cases f <;> first | rfl | cases h

end ActionKind

end CompilerDriver
