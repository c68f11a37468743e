import CompilerDriver.Path

/-! The serialized forms of an artifact, recognized by file extension alone. -/
namespace CompilerDriver

inductive Format where
  | openCl
  | cxxSource
  | irText
  | irBinary
  deriving DecidableEq, Repr

namespace Format

def ofExtension? (extension : Bytes) : Option Format :=
  if extension = Utf8.encode "cl" then some .openCl
  else if extension = Utf8.encode "cc" ∨ extension = Utf8.encode "cpp" then some .cxxSource
  else if extension = Utf8.encode "ll" then some .irText
  else if extension = Utf8.encode "bc" then some .irBinary
  else none

/-- Case matters, and a name that only begins with a dot has no extension. -/
def ofPath? (p : Path) : Option Format := p.extension.bind ofExtension?

/-- The extension of temporaries in this form, with its dot. -/
def extension : Format → String
  | .openCl => ".cl"
  | .cxxSource => ".cc"
  | .irText => ".ll"
  | .irBinary => ".bc"

/-- The two intermediate forms, which every stage after compile accepts. -/
def isIntermediate : Format → Bool
  | .irText | .irBinary => true
  | .openCl | .cxxSource => false

end Format

end CompilerDriver
