import CompilerDriver.Config

/-! The environment of the process, and the layer of settings read from it. -/
namespace CompilerDriver

structure Environment where
  get? : String → Option Bytes

namespace Environment

def none : Environment := ⟨fun _ => .none⟩

/-- The directories of the search path. An empty entry stands for the working directory. -/
def searchPath? (env : Environment) : Option (List Path) :=
  (env.get? "PATH").map fun bytes => (bytes.splitOn 0x3A).map Path.mk

/-- The directory for temporaries when none is configured. -/
def tempDir (env : Environment) : Path :=
  match env.get? "TMPDIR" with
  | some bytes => ⟨bytes⟩
  | .none => .ofString "/tmp"

/-- A setting is a variable that is non-empty, well-formed text. -/
def setting? (env : Environment) (name : String) : Option Path :=
  match env.get? name with
  | some bytes => if bytes ≠ [] ∧ (Utf8.decode? bytes).isSome then some ⟨bytes⟩ else .none
  | .none => .none

end Environment

namespace Config

/-- Where the environment has a setting, it wins over the value there was. -/
def withEnvironment (c : Config) (env : Environment) : Config :=
  { c with
    toolchain := { c.toolchain with
      root := (env.setting? "LLVM_TOOLS_BINARY_DIR").or c.toolchain.root
      libclcInclude := (env.setting? "LIBCLC_INC").or c.toolchain.libclcInclude
      libclcLib := (env.setting? "LIBCLC_LIB").or c.toolchain.libclcLib
      cudaInclude := (env.setting? "CUDA_INC").or c.toolchain.cudaInclude
      cudaLib := (env.setting? "CUDA_LIB").or c.toolchain.cudaLib }
    database := (env.setting? "ALLEYCAT_DB").or c.database }

end Config

end CompilerDriver
