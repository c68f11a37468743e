import CompilerDriver.Machine.Tool.Files
import CompilerDriver.Machine.Tool.Texts
import CompilerDriver.Shell.Test

/-! The small programs that every machine has. -/
namespace CompilerDriver.Machine

namespace Tool

/-- What is said about operands without an answer. -/
def testComplaint : Shell.TestError → Bytes
  | .noNumber operand => Shell.bytesOf "invalid integer " ++ quoted operand
  | .expectsOperand operator => Shell.bytesOf "missing argument after " ++ quoted operator
  | .expectsOperator operand => Shell.bytesOf "missing argument after " ++ quoted operand
  | .notClosed => Shell.bytesOf "')' expected"
  | .noBracket => Shell.bytesOf "missing ']'"

def test (isBracketed : Bool) : Tool where
  run r fs :=
    match Shell.Test.verdict fs isBracketed r.args with
    | .ok answer => { fs := fs, status := if answer then 0 else 1 }
    | .error error => Outcome.complain { fs := fs } r 2 (testComplaint error)

/-- The programs by name. -/
def all : List (String × Tool) :=
  [("true", ending 0), ("false", ending 1), ("sleep", sleep), ("sync", ending 0),
   ("test", test false), ("[", test true),
   ("pwd", { run := fun _ fs => print (Location.toPath fs.workingDir).bytes fs }),
   ("echo", echo), ("printf", printFormatted), ("basename", baseName), ("dirname", dirName),
   ("cat", concatenate), ("head", part false), ("tail", part true), ("wc", count), ("tee", tee),
   ("cmp", compare), ("ls", list), ("cp", copy), ("mv", move), ("ln", link), ("rm", remove),
   ("rmdir", removeDir), ("mkdir", makeDir), ("touch", touch), ("chmod", changeMode)]

end Tool

end CompilerDriver.Machine
