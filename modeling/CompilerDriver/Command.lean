import CompilerDriver.Path

/-! A program and its arguments, byte for byte. -/
namespace CompilerDriver

structure Command where
  program : Path
  args : List Bytes := []
  deriving DecidableEq, Repr

namespace Command

def arg (c : Command) (a : Bytes) : Command := { c with args := c.args ++ [a] }

def path (c : Command) (p : Path) : Command := c.arg p.bytes

def flagPath (c : Command) (flag : String) (p : Path) : Command :=
  (c.arg (Utf8.encode flag)).path p

/-- The command for display, its words parted by blanks. Different commands may look alike. -/
def display (c : Command) : String :=
  " ".intercalate (c.program.display :: c.args.map Utf8.lossy)

end Command

end CompilerDriver
