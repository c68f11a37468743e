import CompilerDriver.Session

/-! The paths that a session may look at or change, so that a file system with these paths, and the
directories above them, is enough to run it. -/
namespace CompilerDriver

namespace Invocation

/-- What is looked at before the configuration is known. -/
def settingsPaths (i : Invocation) (env : Environment) : List Path :=
  let directory := i.directory.getD (.ofString ".")
  directory :: (i.settingsFile.toList ++ Settings.candidates env).map directory.join

end Invocation

namespace Toolchain

def names : List String := ["clang", "clang++", "opt", "llvm-link", "llvm-dis", "cp"]

/-- Where tools may stand. -/
def paths (env : Environment) (c : ToolchainConfig) : List Path :=
  (c.root.toList ++ env.searchPath?.getD []).flatMap fun dir => names.map dir.child

end Toolchain

namespace Config

/-- What a build looks at or writes, besides its temporaries. -/
def buildPaths (c : Config) (env : Environment) : List Path :=
  c.device.inputs ++ c.host.inputs ++ c.device.output.toList ++ c.host.output.toList
    ++ Toolchain.paths env c.toolchain
    ++ c.device.libraryDirs.map (·.child (c.toolchain.deviceTarget ++ ".bc"))
    ++ [c.tempDir.getD env.tempDir]

end Config

end CompilerDriver
