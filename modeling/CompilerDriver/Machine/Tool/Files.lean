import CompilerDriver.Machine.Tool.Basic

/-! Programs that copy, move, make, mark, delete and list files. -/
namespace CompilerDriver.Machine

open CompilerDriver.Shell (bytesOf charsOf bytesOfChars)

namespace Tool

/-- What is said about a failed system call. -/
def orProblem {α : Type} (before : String) (p : Path) (a : Except SystemError α) :
    Except Bytes α :=
  a.mapError (problem before p.bytes)

/-! ### Copying and moving -/

/-- The path of a file of the same name in a directory. -/
def inside (dir file : Path) : Path :=
  dir.join ⟨(file.pieces.getLast?).getD []⟩

def remarkPair (source target : Path) : Bytes :=
  quoted source.bytes ++ bytesOf " -> " ++ quoted target.bytes

def areSame (source target : Path) : Bytes :=
  quoted source.bytes ++ bytesOf " and " ++ quoted target.bytes ++ bytesOf " are the same file"

/-- Puts a copy of a node at a path. An existing file keeps its own marks. -/
def place (fs : FileSystem) (content : Bytes) (executable : Bool) (target : Path) :
    Except Bytes FileSystem :=
  orProblem "cannot create regular file " target <|
    match fs.find target with
    | .ok _ => fs.write target content
    | .error _ => do
      let created ← if target.endsInSlash then .error .notADirectory else fs.createNew target
      let loc ← created.resolve target
      return created.insert loc (.file content executable)

/-- Copies a directory with everything in it. -/
def copyTree (fs : FileSystem) (loc : Location) (source target : Path) :
    Except Bytes FileSystem := do
  let there ← orProblem "cannot create directory " target (fs.resolve target)
  if FileSystem.isWithin loc there then
    .error (bytesOf "cannot copy a directory, " ++ quoted source.bytes ++ bytesOf ", into itself, "
      ++ quoted target.bytes)
  else if fs.isFile target then
    .error (bytesOf "cannot overwrite non-directory " ++ quoted target.bytes
      ++ bytesOf " with directory " ++ quoted source.bytes)
  else
    return (fs.entries.filter fun e => FileSystem.isWithin loc e.1).foldl
      (fun fs (from_, node) => fs.insert (there ++ from_.drop loc.length) node) fs

def copyOne (g : Given) (fs : FileSystem) (source target : Path) : Change := do
  let (loc, node) ← orProblem "cannot stat " source (fs.find source)
  let said := remark g (remarkPair source target)
  if g.has "n" && fs.contains target then return (fs, [])
  else match node with
    | .directory =>
      if g.has "arR" then return (← copyTree fs loc source target, said)
      else .error (bytesOf "-r not specified; omitting directory " ++ quoted source.bytes)
    | .device _ => return (← place fs [] false target, said)
    | .file content executable =>
      match fs.find target with
      | .ok (_, .directory) =>
        .error (bytesOf "cannot overwrite directory " ++ quoted target.bytes
          ++ bytesOf " with non-directory")
      | .ok (there, _) =>
        if there = loc then .error (areSame source target)
        else return (← place fs content executable target, said)
      | .error .notADirectory => .error (problem "cannot stat " target.bytes .notADirectory)
      | .error _ => return (← place fs content executable target, said)

/-- Puts a source in the place of a target. -/
def moveOne (g : Given) (fs : FileSystem) (source target : Path) : Change := do
  let (loc, node) ← orProblem "cannot stat " source (fs.find source)
  let failed (error : SystemError) : Bytes :=
    bytesOf "cannot move " ++ quoted source.bytes ++ problem " to " target.bytes error
  let there ← (fs.resolve target).mapError failed
  let moved : Change :=
    .ok (fs.rename loc there, remark g (bytesOf "renamed " ++ remarkPair source target))
  if g.has "n" && fs.contains target then return (fs, [])
  else if let .error .notADirectory := fs.find target then
    .error (problem "cannot stat " target.bytes .notADirectory)
  else if loc = there then .error (areSame source target)
  else if FileSystem.isWithin loc there then
    .error (bytesOf "cannot move " ++ quoted source.bytes
      ++ bytesOf " to a subdirectory of itself, " ++ quoted target.bytes)
  else
    match fs.node? there, node with
    | none, .directory => moved
    | some .directory, .directory =>
      if fs.names there = [] then moved
      else .error (problem "cannot overwrite " target.bytes .directoryNotEmpty)
    | some .directory, _ =>
      .error (bytesOf "cannot overwrite directory " ++ quoted target.bytes
        ++ bytesOf " with non-directory")
    | some _, .directory =>
      .error (bytesOf "cannot overwrite non-directory " ++ quoted target.bytes
        ++ bytesOf " with directory " ++ quoted source.bytes)
    | _, _ => if target.endsInSlash then .error (failed .notADirectory) else moved

/-- Brings operands to the last of them, or into it if it is a directory. -/
def bring (r : Request) (g : Given) (one : FileSystem → Path → Path → Change)
    (fs : FileSystem) : Outcome :=
  let into (before : String) (dir : Bytes) (sources : List Bytes) : Outcome :=
    match fs.find ⟨dir⟩ with
    | .ok (_, .directory) =>
      forEach r sources (fun fs source => one fs source (inside ⟨dir⟩ source)) fs
    | .ok _ => Outcome.complain { fs := fs } r 1 (problem before dir .notADirectory)
    | .error error => Outcome.complain { fs := fs } r 1 (problem before dir error)
  match g.value? 't', g.operands.reverse with
  | some dir, _ => into "target directory " dir g.operands
  | none, [target, source] =>
    if fs.isDirectory ⟨target⟩ && !g.has "T" then into "target " target [source]
    else forEach r [source] (fun fs source => one fs source ⟨target⟩) fs
  | none, target :: source :: sources =>
    if g.has "T" then r.refused 1 (bytesOf "extra operand " ++ quoted target) fs
    else into "target " target (source :: sources).reverse
  | none, [source] =>
    r.refused 1 (bytesOf "missing destination file operand after " ++ quoted source) fs
  | none, [] => r.refused 1 (bytesOf "missing file operand") fs

def copy : Tool :=
  withOptions ⟨"abdfiHlLnPprRsTuvxZ", "St",
    [("archive", 'a'), ("recursive", 'r'), ("force", 'f'), ("verbose", 'v'),
     ("no-target-directory", 'T'), ("target-directory", 't'), ("preserve", 'p'),
     ("no-clobber", 'n')]⟩ 1 false
    (fun r g fs => bring r g (copyOne g) fs)

def move : Tool :=
  withOptions ⟨"bfinTuvZ", "St",
    [("force", 'f'), ("no-clobber", 'n'), ("verbose", 'v'), ("no-target-directory", 'T'),
     ("target-directory", 't')]⟩ 1 false
    (fun r g fs => bring r g (moveOne g) fs)

/-- A second name for a file, which gets a content of its own here. -/
def linkOne (g : Given) (fs : FileSystem) (source target : Path) : Change := do
  let kind := if g.has "s" then "symbolic" else "hard"
  let (_, node) ← orProblem "failed to access " source (fs.find source)
  let before := "failed to create " ++ kind ++ " link "
  if node = .directory ∧ !g.has "s" then
    .error (shownPath source.bytes ++ bytesOf ": hard link not allowed for directory")
  else if fs.contains target && !g.has "f" then
    .error (problem before target.bytes .alreadyExists)
  else match fs.createNew target with
    | .error error =>
      if fs.contains target then copyOne g fs source target
      else .error (bytesOf before ++ quoted target.bytes ++ problem " => " source.bytes error)
    | .ok _ => copyOne g fs source target

def link : Tool :=
  withOptions ⟨"bdfFinLnPrsTv", "St", [("force", 'f'), ("symbolic", 's')]⟩ 1 false
    (fun r g fs =>
      match g.operands with
      | [source] => bring r { g with operands := [source, bytesOf "."] } (linkOne g) fs
      | _ => bring r g (linkOne g) fs)

/-! ### Deleting -/

def isSelf (p : Path) : Bool :=
  p.pieces.getLast?.any fun last => last = [Path.dot] || last = [Path.dot, Path.dot]

def removeOne (g : Given) (fs : FileSystem) (p : Path) : Change :=
  let failed (error : SystemError) : Change := .error (problem "cannot remove " p.bytes error)
  match fs.find p with
  | .error error =>
    if g.has "f" ∧ (error = .notFound ∨ error = .notADirectory) then .ok (fs, []) else failed error
  | .ok (loc, .directory) =>
    let removed := remark g (bytesOf "removed directory " ++ quoted p.bytes)
    if !g.has "rRd" then failed .isADirectory
    else if isSelf p then
      .error (bytesOf "refusing to remove '.' or '..' directory: skipping " ++ quoted p.bytes)
    else if loc = [] then
      .error (bytesOf "it is dangerous to operate recursively on '/'")
    else if g.has "rR" then .ok (fs.removeTree loc, removed)
    else match fs.removeDir p with
      | .ok fs => .ok (fs, removed)
      | .error error => failed error
  | .ok (loc, _) => .ok (fs.erase loc, remark g (bytesOf "removed " ++ quoted p.bytes))

def remove : Tool :=
  withOptions ⟨"dfiIrRv", "",
    [("force", 'f'), ("recursive", 'r'), ("dir", 'd'), ("verbose", 'v')]⟩ 1 false
    (fun r g fs =>
      if g.operands = [] ∧ !g.has "f" then r.refused 1 missingOperand fs
      else forEach r g.operands (removeOne g) fs)

/-- A path and those above it, the longest first. -/
def upwards (p : Path) : List Path :=
  let pieces := p.pieces
  (List.range pieces.length).map fun n =>
    ⟨(if p.isAbsolute then [Path.slash] else [])
      ++ Shell.joined [Path.slash] (pieces.take (pieces.length - n))⟩

def removeDirOne (r : Request) (g : Given) (fs : FileSystem) (p : Path) : Change :=
  let paths := if g.has "p" then upwards p else [p]
  paths.foldlM (fun (fs, said) part => do
    let before := if part = p then "failed to remove " else "failed to remove directory "
    let removed ← orProblem before part (fs.removeDir part)
    let text := r.name ++ bytesOf ": removing directory, " ++ quoted part.bytes
    return (removed, said ++ remark g text)) (fs, [])

def removeDir : Tool :=
  withOptions ⟨"pv", "", [("parents", 'p'), ("verbose", 'v')]⟩ 1 false
    (fun r g fs =>
      if g.operands = [] then r.refused 1 missingOperand fs
      else forEach r g.operands (removeDirOne r g) fs)

/-! ### Making and marking -/

/-- Makes a directory, and those on the way to it that are missing if that is asked for. -/
def makeDirOne (r : Request) (g : Given) (fs : FileSystem) (p : Path) : Change :=
  let paths := if g.has "p" && !p.isEmpty then (upwards p).reverse else [p]
  paths.foldlM (fun (fs, said) part => do
    if g.has "p" && fs.isDirectory part then return (fs, said)
    else
      let isInTheWay := paths.getLast? ≠ some part && fs.contains part
      let made ← orProblem "cannot create directory " part
        (if isInTheWay then .error .notADirectory else fs.makeDir part)
      let text := r.name ++ bytesOf ": created directory " ++ quoted part.bytes
      return (made, said ++ remark g text)) (fs, [])

def makeDir : Tool :=
  withOptions ⟨"pvZ", "m", [("parents", 'p'), ("verbose", 'v'), ("mode", 'm')]⟩ 1 false
    (fun r g fs =>
      if g.operands = [] then r.refused 1 missingOperand fs
      else forEach r g.operands (makeDirOne r g) fs)

def touchOne (g : Given) (fs : FileSystem) (p : Path) : Change :=
  if fs.contains p then .ok (fs, [])
  else if g.has "c" then .ok (fs, [])
  else match fs.createNew p with
    | .ok fs => .ok (fs, [])
    | .error error =>
      if p.endsInSlash then
        let reason := match fs.find p with
          | .ok _ => error
          | .error reason => reason
        .error (problem "setting times of " p.bytes reason)
      else .error (problem "cannot touch " p.bytes error)

def touch : Tool :=
  withOptions ⟨"acfhm", "drt", [("no-create", 'c')]⟩ 1 false
    (fun r g fs =>
      if g.operands = [] then r.refused 1 (bytesOf "missing file operand") fs
      else forEach r g.operands (touchOne g) fs)

/-- Whether a file may be executed after its mode is changed; `none` for a mode that makes no
sense. Any of three classes may allow it. -/
def executableUnder (mode : List Char) (executable : Bool) : Option Bool :=
  if mode ≠ [] ∧ mode.all Shell.isOctalDigit then
    if Shell.valueOfDigits 8 mode < 4096 then
      some (mode.any fun c => Shell.digitValue c % 2 = 1)
    else none
  else
    (mode.splitOn ',').foldlM (fun executable clause =>
      let isClass (c : Char) : Bool := "ugoa".toList.contains c
      let classes := clause.takeWhile isClass
      let coversAll := classes = [] ∨ 'a' ∈ classes ∨ ['u', 'g', 'o'].all classes.contains
      match clause.dropWhile isClass with
      | operator :: letters =>
        if !letters.all "rwxXst".toList.contains then none
        else
          let names := 'x' ∈ letters ∨ ('X' ∈ letters ∧ executable)
          match operator with
          | '+' => some (executable || names)
          | '-' => some (executable && !(names && coversAll))
          | '=' => some (names || (executable && !coversAll))
          | _ => none
      | [] => none) executable

/-- Changes the mode of a file, or of everything in a directory if that is asked for. -/
def changeModeOf (recursive : Bool) (mode : List Char) (fs : FileSystem) (p : Path) : Change := do
  let (loc, _) ← orProblem "cannot access " p (fs.find p)
  let places := if recursive then
      (fs.entries.map (·.1)).filter (FileSystem.isWithin loc) else [loc]
  return (places.foldl (fun fs place =>
    match fs.node? place with
    | some (.file _ executable) =>
      fs.setExecutable place ((executableUnder mode executable).getD executable)
    | _ => fs) fs, [])

def changeMode : Tool where
  run r fs :=
    let isOption (word : Bytes) : Bool :=
      ["-R", "-f", "-c", "-v", "--", "--recursive"].any (bytesOf · = word)
    let recursive := ["-R", "--recursive"].any fun o => r.args.contains (bytesOf o)
    let isQuiet := r.args.contains (bytesOf "-f")
    let quietened (o : Outcome) : Outcome := if isQuiet then { o with writes := [] } else o
    match r.args.filter (!isOption ·) with
    | [] => r.refused 1 missingOperand fs
    | [mode] =>
      if (charsOf mode).head? = some '-' then r.refused 1 missingOperand fs
      else r.refused 1 (bytesOf "missing operand after " ++ quoted mode) fs
    | mode :: operands =>
      if (executableUnder (charsOf mode) true).isNone then
        r.refused 1 (bytesOf "invalid mode: " ++ quoted mode) fs
      else quietened (forEach r operands (changeModeOf recursive (charsOf mode)) fs)

/-! ### Listing -/

/-- How the names in a directory are shown. -/
structure Listing where
  showsHidden : Bool
  showsSelf : Bool
  isReversed : Bool
  marksDirectories : Bool
  marksPrograms : Bool
  goesDown : Bool

namespace Listing

def sorted (l : Listing) (names : List Bytes) : List Bytes :=
  let names := names.mergeSort fun a b => !Shell.precedes b a
  if l.isReversed then names.reverse else names

/-- A line for a name, with a mark that tells what it is. -/
def line (l : Listing) (node : Option Node) (name : Bytes) : Bytes :=
  let mark := match node with
    | some .directory => if l.marksDirectories then "/" else ""
    | some (.file _ true) => if l.marksPrograms then "*" else ""
    | _ => ""
  name ++ bytesOf (mark ++ "\n")

def shownNames (l : Listing) (fs : FileSystem) (loc : Location) : List Bytes :=
  let names := fs.names loc
  let names := if l.showsHidden then names else names.filter (·.head? ≠ some Path.dot)
  l.sorted ((if l.showsSelf then [[Path.dot], [Path.dot, Path.dot]] else []) ++ names)

/-- The lines for a directory. -/
def lines (l : Listing) (fs : FileSystem) (loc : Location) : Bytes :=
  (l.shownNames fs loc).flatMap fun name =>
    let isSelf := name = [Path.dot] || name = [Path.dot, Path.dot]
    l.line (if isSelf then some .directory else fs.node? (loc ++ [name])) name

/-- Directories with their names; those inside follow if they are asked for. -/
def directories (l : Listing) (fs : FileSystem) : Nat → Bytes × Location → List (Bytes × Location)
  | 0, _ => []
  | depth + 1, (name, loc) =>
    let inner := (l.shownNames fs loc).filter fun inner =>
      inner ≠ [Path.dot] && inner ≠ [Path.dot, Path.dot]
        && fs.node? (loc ++ [inner]) = some .directory
    (name, loc) :: if !l.goesDown then [] else inner.flatMap fun inner =>
      let separator := if name.getLast? = some Path.slash then [] else [Path.slash]
      directories l fs depth (name ++ separator ++ inner, loc ++ [inner])

/-- What is shown for some operands: files first, then directories, each with its name above if
there are several. -/
def shown (l : Listing) (fs : FileSystem) (itself : Bool) (operands : List Bytes) : Bytes :=
  let operands := l.sorted operands
  let found := operands.filterMap fun operand =>
    (fs.find ⟨operand⟩).toOption.map fun (loc, node) => (operand, loc, node)
  let (dirs, others) := found.partition fun (_, _, node) => node = .directory && !itself
  let groups := (dirs.map fun (name, loc, _) => (name, loc)).flatMap (l.directories fs 100)
  let isNamed := operands.length > 1 || l.goesDown
  let blocks := groups.map fun (name, loc) =>
    (if isNamed then name ++ bytesOf ":\n" else []) ++ l.lines fs loc
  let above := others.flatMap fun (name, _, node) => l.line (some node) name
  Shell.joined (bytesOf "\n") ((if above = [] then [] else [above]) ++ blocks)

end Listing

def list : Tool :=
  withOptions ⟨"1aAdFpqrRU", "", [("all", 'a'), ("almost-all", 'A'), ("directory", 'd')]⟩ 2 false
    (fun r g fs =>
      let l : Listing :=
        { showsHidden := g.has "aA"
          showsSelf := g.has "a"
          isReversed := g.has "r"
          marksDirectories := g.has "pF"
          marksPrograms := g.has "F"
          goesDown := g.has "R" && !g.has "d" }
      let operands := if g.operands = [] then [bytesOf "."] else g.operands
      let start : Outcome := { fs := fs }
      (operands.foldl (fun done operand =>
        match fs.find ⟨operand⟩ with
        | .ok _ => done
        | .error error => done.complain r 2 (problem "cannot access " operand error)) start).say
        (l.shown fs (g.has "d") operands))

end Tool

end CompilerDriver.Machine
