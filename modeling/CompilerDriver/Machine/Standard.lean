import CompilerDriver.Machine.Image
import CompilerDriver.Machine.Tool

/-! What every machine has: its programs, its devices, its tables, and the directories around
them. -/
namespace CompilerDriver.Machine

/-- Programs that run shell programs. -/
def shellNames : List String := ["sh", "dash", "bash"]

/-- Runs another program with a changed environment. -/
def environmentName : String := "env"

def programNames : List String := shellNames ++ environmentName :: Tool.all.map (·.1)

/-- Directories that hold the programs. -/
def programDirs : List Location := [[Utf8.encode "bin"], [Utf8.encode "usr", Utf8.encode "bin"]]

/-- Directories that stand in the root or are commonly looked for. -/
def directoryPaths : List String :=
  ["/bin", "/boot", "/dev", "/etc", "/home", "/lib", "/media", "/mnt", "/opt", "/proc", "/root",
   "/run", "/sbin", "/srv", "/sys", "/tmp", "/usr", "/usr/bin", "/usr/include", "/usr/lib",
   "/usr/local", "/usr/local/bin", "/usr/sbin", "/usr/share", "/var", "/var/tmp"]

/-- Tables of the machine, as paths and texts. -/
def tables : List (String × String) :=
  [("/etc/passwd", "root:x:0:0:root:/root:/bin/sh\n"), ("/etc/group", "root:x:0:\n"),
   ("/etc/hosts", "127.0.0.1\tlocalhost\n")]

/-- Adds what every machine has to a file system. -/
def furnish (fs : FileSystem) : FileSystem :=
  let locationOf (path : String) : Location := (Path.ofString path).pieces
  let fs := (directoryPaths.map locationOf).foldl (fun fs dir => fs.insert dir .directory) fs
  let fs := programDirs.foldl (fun fs dir =>
    programNames.foldl (fun fs name =>
      fs.insert (dir ++ [Utf8.encode name]) (.file (Image.contentOf name) true)) fs) fs
  let fs := tables.foldl (fun fs (path, text) =>
    fs.insert (locationOf path) (.file (Utf8.encode text) false)) fs
  (fs.insert (locationOf "/dev/null") (.device .null)).insert (locationOf "/dev/full")
    (.device .full)

end CompilerDriver.Machine
