import CompilerDriver.Action.Kind
import CompilerDriver.Command
import CompilerDriver.Toolchain

/-! Command lines of the actions. A template fixes the program and everything but the files; the
binding supplies those. So what an action reads and writes can be read off its binding, and two
bindings of one template give the same command only if they name the same files. -/
namespace CompilerDriver

/-- The files of one action. -/
structure Binding where
  output : Path
  inputs : List Path
  deriving DecidableEq, Repr

inductive OperandOrder where
  /-- The output after a `-o`, then the inputs. -/
  | outputFlag
  /-- The inputs, then the output. -/
  | inputsFirst
  deriving DecidableEq, Repr

structure Template where
  program : Path
  leading : List Bytes := []
  trailing : List Bytes := []
  order : OperandOrder := .outputFlag
  deriving DecidableEq, Repr

namespace Binding

def map (f : Path → Path) (b : Binding) : Binding := ⟨f b.output, b.inputs.map f⟩

def operands (b : Binding) : OperandOrder → List Bytes
  | .outputFlag => Utf8.encode "-o" :: b.output.bytes :: b.inputs.map Path.bytes
  | .inputsFirst => b.inputs.map Path.bytes ++ [b.output.bytes]

end Binding

namespace Template

def command (t : Template) (b : Binding) : Command :=
  ⟨t.program, t.leading ++ b.operands t.order ++ t.trailing⟩

end Template

/-- What command lines depend on apart from the files of the action. -/
structure BuildSettings where
  config : Config
  tools : Toolchain

namespace BuildSettings

/-- One option word followed by a path, for each path. -/
private def flagged (flag : String) (paths : List Path) : List Bytes :=
  paths.flatMap fun p => [Utf8.encode flag, p.bytes]

private def words (ws : List String) : List Bytes := ws.map Utf8.encode

/-- The device library of the target: below the configured library directory, else from the first
search directory that has it as a file, else by its bare name. -/
def deviceLibrary (s : BuildSettings) (fs : FileSystem) : Path :=
  let file := Path.ofString (s.config.toolchain.deviceTarget ++ ".bc")
  match s.config.toolchain.libclcLib with
  | some dir => dir.join file
  | none => ((s.config.device.libraryDirs.map (·.join file)).find? fs.isFile).getD file

/-- The optimizer with one pass plugin, which reads and updates the analysis database. -/
def pass (s : BuildSettings) (kind : ActionKind) (plugin : String) :
    Except PipelineError Template :=
  match s.config.database with
  | none => .error (.missingConfig kind.name "an analysis database")
  | some database => .ok
    { program := s.tools.opt
      leading := flagged "-load" [s.config.toolchain.pluginDir.child (plugin ++ ".so")]
        ++ words ["-" ++ plugin]
        ++ flagged "-alleycat_db" [database] }

/-- The template of a kind. Only the passes can fail, for want of a database. -/
def template (s : BuildSettings) (fs : FileSystem) (kind : ActionKind) :
    Except PipelineError Template :=
  let tools := s.tools
  let c := s.config.toolchain
  let target := words ["-target", c.deviceTarget]
  match kind with
  | .deviceAnalyze => s.pass kind "bsp_analysis"
  | .deviceTransform => s.pass kind "bsp_transform"
  | .hostTransform => s.pass kind "host_transform"
  | .clCompile => .ok
    { program := tools.clang
      leading := words ["-Dcl_clang_storage_class_specifiers", "-x", "cl"]
        ++ flagged "-isystem" c.libclcInclude.toList
        ++ words ["-include", "clc/clc.h"] ++ target ++ words ["-c", "-emit-llvm"]
        ++ flagged "-I" s.config.device.includeDirs }
  | .deviceIrCompile => .ok
    { program := tools.clang, leading := target ++ words ["-c", "-emit-llvm"] }
  | .deviceAssemble => .ok { program := tools.clang, leading := target ++ words ["-S"] }
  | .deviceLink => .ok { program := tools.llvmLink, trailing := [(s.deviceLibrary fs).bytes] }
  | .cxxCompile => .ok
    { program := tools.clangxx
      leading := words ["-c"]
      trailing := flagged "-I" (c.cudaInclude.toList ++ [c.supportInclude])
        ++ words ["-include", "alleycat.h", "-std=c++0x", "-emit-llvm"]
        ++ flagged "-I" s.config.host.includeDirs }
  | .hostIrCompile => .ok
    { program := tools.clangxx, leading := words ["-S"], trailing := words ["-emit-llvm"] }
  | .hostAssemble => .ok { program := tools.clangxx, leading := words ["-S"] }
  | .hostLink => .ok
    { program := tools.clangxx
      trailing := c.cudaLib.toList.flatMap (fun dir => flagged "-L" [dir] ++ words ["-lcuda"])
        ++ flagged "-L" [c.runtimeLibDir] ++ words ["-ljsoncpp", "-lbitop"]
        ++ flagged "-L" s.config.host.libraryDirs
        ++ words (s.config.host.libraries.map ("-l" ++ ·)) }
  | .disassemble => .ok { program := tools.llvmDis }
  | .copy => .ok { program := tools.cp, order := .inputsFirst }

end BuildSettings

end CompilerDriver
