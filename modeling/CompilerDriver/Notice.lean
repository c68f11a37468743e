import CompilerDriver.LogEvent
import CompilerDriver.Path
import CompilerDriver.Stage

/-! What a run reports while it works, apart from errors. -/
namespace CompilerDriver

inductive Notice where
  | backendDisabled
  | inputs (pipeline : Pipeline) (files : List Path)
  | finished (actions : Nat) (last : Stage)
  deriving DecidableEq, Repr

namespace Notice

def event : Notice → LogEvent
  | backendDisabled =>
    { level := .warn
      message :=
        "assemble and disassemble stages are disabled; pass --backend-stages to enable them" }
  | inputs p files =>
    { level := .info
      message :=
        "Files in " ++ p.name ++ " pipeline: " ++ " ".intercalate (files.map Path.display) }
  | finished actions last =>
    { level := .info
      message := "driver run finished"
      fields := [("actions", .number actions), ("last_stage", .text last.name)] }

/-- The level of the notice and its text. -/
def render (n : Notice) : String := n.event.plain

end Notice

end CompilerDriver
