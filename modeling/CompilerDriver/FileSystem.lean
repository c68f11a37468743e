import CompilerDriver.Path
import CompilerDriver.SystemError

/-! A file system as the driver and its tools see it: a finite table of directories and files, and
a working directory. Operations take paths and answer with the system's errors. There are no
links, so the place a path names depends on the path and the working directory alone. -/
namespace CompilerDriver

/-- Files without content of their own: both read as empty; one takes every write, the other
none. -/
inductive Device where
  | null
  | full
  deriving DecidableEq, Repr

inductive Node where
  | directory
  | file (content : Bytes) (executable : Bool)
  | device (device : Device)
  deriving DecidableEq, Repr

/-- The names on the way from the root. -/
abbrev Location := List Bytes

structure FileSystem where
  entries : List (Location × Node) := []
  workingDir : Location := []
  deriving DecidableEq, Repr

/-- The absolute path of a location. -/
def Location.toPath (loc : Location) : Path :=
  if loc = [] then ⟨[Path.slash]⟩ else ⟨loc.flatMap fun name => Path.slash :: name⟩

namespace FileSystem

/-- What stands at a location. The root is always a directory. -/
def node? (fs : FileSystem) (loc : Location) : Option Node :=
  if loc = [] then some .directory else fs.entries.lookup loc

def insert (fs : FileSystem) (loc : Location) (node : Node) : FileSystem :=
  { fs with entries := (loc, node) :: fs.entries.filter (·.1 ≠ loc) }

def erase (fs : FileSystem) (loc : Location) : FileSystem :=
  { fs with entries := fs.entries.filter (·.1 ≠ loc) }

/-- Bytes in one name. -/
def nameLimit : Nat := 255

/-- Bytes in one path. -/
def pathLimit : Nat := 4095

/-- From a directory to one of its names, which need not exist. -/
def step (fs : FileSystem) (loc : Location) (piece : Bytes) : Except SystemError Location :=
  match fs.node? loc with
  | none => .error .notFound
  | some (.file ..) | some (.device _) => .error .notADirectory
  | some .directory =>
    if piece = [Path.dot] then .ok loc
    else if piece = [Path.dot, Path.dot] then .ok loc.dropLast
    else if nameLimit < piece.length then .error .nameTooLong
    else .ok (loc ++ [piece])

/-- The location a path names. Every directory on the way must exist; the end need not. -/
def resolve (fs : FileSystem) (p : Path) : Except SystemError Location :=
  if (0 : UInt8) ∈ p.bytes then
    .error (.zeroByte "file name contained an unexpected NUL byte")
  else if p.isEmpty then .error .notFound
  else if pathLimit < p.bytes.length then .error .nameTooLong
  else p.pieces.foldlM fs.step (if p.isAbsolute then [] else fs.workingDir)

/-- The existing thing a path names. A path that ends in a separator names no file. -/
def find (fs : FileSystem) (p : Path) : Except SystemError (Location × Node) := do
  let loc ← fs.resolve p
  match fs.node? loc with
  | none => .error .notFound
  | some .directory => .ok (loc, .directory)
  | some node => if p.endsInSlash then .error .notADirectory else .ok (loc, node)

def contains (fs : FileSystem) (p : Path) : Bool :=
  match fs.find p with
  | .ok _ => true
  | .error _ => false

def isFile (fs : FileSystem) (p : Path) : Bool :=
  match fs.find p with
  | .ok (_, .file ..) => true
  | _ => false

def isDirectory (fs : FileSystem) (p : Path) : Bool :=
  match fs.find p with
  | .ok (_, .directory) => true
  | _ => false

def isExecutable (fs : FileSystem) (p : Path) : Bool :=
  match fs.find p with
  | .ok (_, .file _ executable) => executable
  | _ => false

def read (fs : FileSystem) (p : Path) : Except SystemError Bytes := do
  match ← fs.find p with
  | (_, .file content _) => .ok content
  | (_, .device _) => .ok []
  | (_, .directory) => .error .isADirectory

/-- An empty file where nothing was. -/
def createNew (fs : FileSystem) (p : Path) : Except SystemError FileSystem := do
  let loc ← fs.resolve p
  if p.endsInSlash then .error .isADirectory
  else match fs.node? loc with
    | some _ => .error .alreadyExists
    | none => .ok (fs.insert loc (.file [] false))

/-- Replaces the content of a file, or creates it; `change` sees the content there was. -/
def update (fs : FileSystem) (p : Path) (change : Bytes → Bytes) :
    Except SystemError FileSystem := do
  let loc ← fs.resolve p
  if p.endsInSlash then .error .isADirectory
  else match fs.node? loc with
    | some .directory => .error .isADirectory
    | some (.device .null) => .ok fs
    | some (.device .full) => .error .storageFull
    | some (.file content executable) => .ok (fs.insert loc (.file (change content) executable))
    | none => .ok (fs.insert loc (.file (change []) false))

def write (fs : FileSystem) (p : Path) (content : Bytes) : Except SystemError FileSystem :=
  fs.update p fun _ => content

def append (fs : FileSystem) (p : Path) (content : Bytes) : Except SystemError FileSystem :=
  fs.update p (· ++ content)

/-- Deletes a file. Directories stay. -/
def remove (fs : FileSystem) (p : Path) : Except SystemError FileSystem := do
  match ← fs.find p with
  | (loc, .file ..) | (loc, .device _) => .ok (fs.erase loc)
  | (_, .directory) => .error .isADirectory

def makeDir (fs : FileSystem) (p : Path) : Except SystemError FileSystem := do
  let loc ← fs.resolve p
  match fs.node? loc with
  | some _ => .error .alreadyExists
  | none => .ok (fs.insert loc .directory)

def changeDir (fs : FileSystem) (p : Path) : Except SystemError FileSystem := do
  match ← fs.find p with
  | (loc, .directory) => .ok { fs with workingDir := loc }
  | (_, .file ..) | (_, .device _) => .error .notADirectory

/-- The names in a directory. -/
def names (fs : FileSystem) (loc : Location) : List Bytes :=
  (fs.entries.filter fun e => e.1 ≠ [] ∧ e.1.dropLast = loc).filterMap (·.1.getLast?)

/-- How many names a directory holds. -/
def count? (fs : FileSystem) (p : Path) : Option Nat :=
  match fs.find p with
  | .ok (loc, .directory) => some (fs.names loc).length
  | _ => none

/-- Whether a location lies in a directory or is that directory. -/
def isWithin (dir loc : Location) : Bool := loc.take dir.length = dir

/-- Deletes a location with everything below it. -/
def removeTree (fs : FileSystem) (loc : Location) : FileSystem :=
  { fs with entries := fs.entries.filter fun e => !isWithin loc e.1 }

def removeDir (fs : FileSystem) (p : Path) : Except SystemError FileSystem := do
  match ← fs.find p with
  | (loc, .directory) =>
    if p.pieces.getLast? = some [Path.dot] then .error .invalidArgument
    else if p.pieces.getLast? = some [Path.dot, Path.dot] then .error .directoryNotEmpty
    else if loc = [] then .error (.number 16)
    else if fs.names loc ≠ [] then .error .directoryNotEmpty
    else .ok (fs.erase loc)
  | (_, .file ..) | (_, .device _) => .error .notADirectory

/-- Puts what stands at one location, with everything below it, in the place of another. -/
def rename (fs : FileSystem) (source target : Location) : FileSystem :=
  if source = target then fs
  else
    { fs with entries := (fs.removeTree target).entries.map fun (loc, node) =>
        if isWithin source loc then (target ++ loc.drop source.length, node) else (loc, node) }

def setExecutable (fs : FileSystem) (loc : Location) (executable : Bool) : FileSystem :=
  match fs.node? loc with
  | some (.file content _) => fs.insert loc (.file content executable)
  | _ => fs

/-- A relative path, read from the working directory. -/
def absolute (fs : FileSystem) (p : Path) : Path :=
  (Location.toPath fs.workingDir).join p

theorem node?_insert_self (fs : FileSystem) {loc : Location} (h : loc ≠ []) (node : Node) :
    (fs.insert loc node).node? loc = some node := by
  simp [node?, insert, h]

private theorem lookup_filter_ne {entries : List (Location × Node)} {loc other : Location}
    (h : other ≠ loc) :
    (entries.filter (·.1 ≠ loc)).lookup other = entries.lookup other := by
  induction entries with
  | nil => rfl
  | cons e rest ih =>
    obtain ⟨key, node⟩ := e
    by_cases hk : key = loc
    · subst hk
      have hb : (other == key) = false := by simpa using h
      simp only [List.filter_cons, ne_eq, not_true_eq_false, decide_false, Bool.false_eq_true,
        if_false, List.lookup_cons, hb]
      exact ih
    · by_cases ho : other = key
      · subst ho; simp [h]
      · have hb : (other == key) = false := by simpa using ho
        simp only [List.filter_cons, ne_eq, hk, not_false_eq_true, decide_true, if_true,
          List.lookup_cons, hb]
        exact ih

theorem node?_insert_of_ne (fs : FileSystem) {loc other : Location} (h : other ≠ loc)
    (node : Node) : (fs.insert loc node).node? other = fs.node? other := by
  have hb : (other == loc) = false := by simpa using h
  simp only [node?, insert, List.lookup_cons, hb, lookup_filter_ne h]

theorem node?_erase_of_ne (fs : FileSystem) {loc other : Location} (h : other ≠ loc) :
    (fs.erase loc).node? other = fs.node? other := by
  simp only [node?, erase, lookup_filter_ne h]

theorem node?_erase_self (fs : FileSystem) {loc : Location} (h : loc ≠ []) :
    (fs.erase loc).node? loc = none := by
  simp only [node?, h, if_false, erase]
  induction fs.entries with
  | nil => rfl
  | cons e rest ih =>
    obtain ⟨key, node⟩ := e
    by_cases hk : key = loc
    · simpa [List.filter_cons, hk] using ih
    · have hb : (loc == key) = false := by simpa using Ne.symm hk
      simpa [List.filter_cons, hk, List.lookup_cons, hb] using ih

end FileSystem

end CompilerDriver
