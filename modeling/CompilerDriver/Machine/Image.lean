import CompilerDriver.FileSystem
import CompilerDriver.Shell.Text

/-! Executable files: programs of the machine, which are known by a name in their content, and
texts that name an interpreter on their first line. -/
namespace CompilerDriver.Machine

inductive Image where
  | program (name : String)
  /-- A text, its interpreter, and the one operand that stands before the path of the text. -/
  | interpreted (interpreter : Path) (operand : Option Bytes)
  deriving DecidableEq, Repr

namespace Image

/-- The bytes that open a program of the machine. -/
def magic : Bytes := 0x7F :: Shell.bytesOf "ELF"

def contentOf (name : String) : Bytes := magic ++ Utf8.encode name

/-- Bytes of a file that tell what it is. Shorter files are filled up with zeros. -/
def bufferSize : Nat := 256

def isBlank (b : UInt8) : Bool := b == 0x20 || b == 0x09

def endsName (b : UInt8) : Bool := isBlank b || b == 0

/-- The part of the first line, after its mark, in which the interpreter is named. A line that is
longer than the buffer counts only if the name is complete. -/
def interpreterLine? (buffer : Bytes) : Option Bytes :=
  let known := buffer.takeWhile (· ≠ 0)
  if 0x0A ∈ known then some ((known.takeWhile (· ≠ 0x0A)).drop 2)
  else
    let rest := (buffer.drop 2).dropWhile isBlank
    if rest.any endsName then some ((buffer.take (bufferSize - 1)).drop 2) else none

/-- The interpreter that a line names, and the rest of the line as its operand. -/
def ofLine? (line : Bytes) : Option Image :=
  let trimmed := ((line.reverse.dropWhile isBlank).reverse).dropWhile isBlank
  if trimmed = [] then none
  else
    let rest := trimmed.dropWhile (!endsName ·)
    let operand :=
      if rest.head?.any isBlank then some ((rest.dropWhile isBlank).takeWhile (· ≠ 0)) else none
    some (.interpreted ⟨trimmed.takeWhile (!endsName ·)⟩ operand)

/-- What an executable file is; `none` for one that the machine cannot run. -/
def ofContent? (programs : List String) (content : Bytes) : Option Image :=
  if content.take 2 = Shell.bytesOf "#!" then
    let start := content.take bufferSize
    let buffer := start ++ List.replicate (bufferSize - start.length) 0
    (interpreterLine? buffer).bind ofLine?
  else (programs.find? fun name => content = contentOf name).map .program

end Image

end CompilerDriver.Machine
