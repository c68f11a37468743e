import CompilerDriver.Environment
import CompilerDriver.FileSystem

/-! Where the external tools are. A tool that cannot be found keeps its bare name, and the failure
shows when it is launched. -/
namespace CompilerDriver

structure Toolchain where
  clang : Path
  clangxx : Path
  opt : Path
  llvmLink : Path
  llvmDis : Path
  cp : Path
  deriving DecidableEq, Repr

namespace Toolchain

/-- The first entry of the search path that holds an executable file of the name. -/
def search (env : Environment) (fs : FileSystem) (name : String) : Path :=
  let candidates := (env.searchPath?.getD []).map (·.child name)
  (candidates.find? fs.isExecutable).getD (.ofString name)

/-- The compiler tools stand below the configured root, if there is one; the copy tool never
does. -/
def locate (env : Environment) (fs : FileSystem) (c : ToolchainConfig) : Toolchain :=
  let tool (name : String) : Path :=
    match c.root with
    | some root => root.child name
    | none => search env fs name
  { clang := tool "clang"
    clangxx := tool "clang++"
    opt := tool "opt"
    llvmLink := tool "llvm-link"
    llvmDis := tool "llvm-dis"
    cp := search env fs "cp" }

/-- The tools of one directory. -/
def inDir (env : Environment) (fs : FileSystem) (root : Path) : Toolchain :=
  locate env fs { root := some root }

end Toolchain

end CompilerDriver
