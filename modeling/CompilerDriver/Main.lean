import CompilerDriver.Footprint
import CompilerDriver.Launcher
import CompilerDriver.Transcript

/-! The command-line tool. The files a session may touch are read into a file system, the session
runs there, and what it changed is written back. -/
namespace CompilerDriver.Main

/-- The variables that a session reads. -/
def variableNames : List String :=
  ["PATH", "HOME", "TMPDIR", "XDG_CONFIG_HOME", "LLVM_TOOLS_BINARY_DIR", "LIBCLC_INC", "LIBCLC_LIB",
   "CUDA_INC", "CUDA_LIB", "ALLEYCAT_DB"]

def environment : IO Environment := do
  let found ← variableNames.filterMapM fun name => do
    return (← IO.getEnv name).map fun value => (name, Utf8.encode value)
  return ⟨fun name => found.lookup name⟩

/-- What stands at a path of the machine. Files that name an interpreter count as executable. -/
def nodeAt (path : String) : IO (Option Node) := do
  if let .ok bytes ← (IO.FS.readBinFile path).toBaseIO then
    let content := bytes.toList
    let image := Machine.Image.ofContent? Machine.programNames content
    return some (.file content image.isSome)
  if let .ok found ← (IO.FS.realPath path).toBaseIO then
    if ← found.isDir then return some .directory
  return none

/-- Reads what stands at a location and above it. -/
def load (fs : FileSystem) (loc : Location) : IO FileSystem := do
  let mut fs := fs
  for depth in List.range (loc.length + 1) do
    let part := loc.take depth
    if (fs.node? part).isNone then
      if let some node ← nodeAt (Location.toPath part).display then
        fs := fs.insert part node
  return fs

/-- The location a path names, with its steps upwards taken as they come. -/
def locationOf (fs : FileSystem) (p : Path) : Location :=
  (fs.absolute p).pieces.foldl (fun loc piece =>
    if piece = [Path.dot] then loc
    else if piece = [Path.dot, Path.dot] then loc.dropLast
    else loc ++ [piece]) []

def loadAll (fs : FileSystem) (paths : List Path) : IO FileSystem :=
  paths.foldlM (fun fs p => load fs (locationOf fs p)) fs

/-- Writes the difference between two file systems. -/
def store (before after : FileSystem) : IO Unit := do
  for (loc, node) in before.entries do
    if (after.node? loc).isNone then
      let path := (Location.toPath loc).display
      match node with
      | .directory => discard (IO.FS.removeDir path).toBaseIO
      | _ => discard (IO.FS.removeFile path).toBaseIO
  for (loc, node) in after.entries.reverse do
    if before.node? loc ≠ some node then
      let path := (Location.toPath loc).display
      match node with
      | .directory => discard (IO.FS.createDir path).toBaseIO
      | .device _ => pure ()
      | .file content _ => discard (IO.FS.writeBinFile path ⟨content.toArray⟩).toBaseIO

/-- The file system around the working directory, and the paths of the session. -/
def world (env : Environment) (i : Invocation) : IO FileSystem := do
  let workingDir := (Path.ofString (← IO.currentDir).toString).pieces
  let fs ← load (Machine.furnish { workingDir := workingDir }) workingDir
  let fs ← loadAll fs (i.settingsPaths env)
  match Session.enter i fs with
  | .error _ => return fs
  | .ok entered =>
    match Settings.load env entered i.settingsFile with
    | .error _ => return fs
    | .ok settings =>
      let c := Config.layered settings env i.arguments i.verbose
      let loaded ← loadAll entered (c.buildPaths env)
      return { loaded with workingDir := workingDir }

def session (i : Invocation) : IO UInt32 := do
  let env ← environment
  let fs ← world env i
  let names := NameSupply.ofSeed (← IO.rand 0 (Token.count - 1))
  let done := Session.run env (Launcher.runner env) i fs names
  (← IO.getStdout).write ⟨done.printed.toArray⟩
  store fs done.fs
  (← IO.getStderr).write ⟨(done.errorOutput i.log).toArray⟩
  return done.exitCode.toUInt32

def run (args : List String) : IO UInt32 :=
  match Invocation.parse (args.map Utf8.encode) with
  | .error .help => do
    IO.print optionsText
    return 0
  | .error .version => do
    IO.println Session.versionLine
    return 0
  | .error (.usage error) => do
    IO.eprint error.text
    return 2
  | .ok i => session i

end CompilerDriver.Main

def main (args : List String) : IO UInt32 := CompilerDriver.Main.run args
