import CompilerDriver.Environment
import CompilerDriver.FileSystem
import CompilerDriver.Machine.Signal

/-! What running programs share: the file system, the streams that are open, and the signals on
their way. A program knows its streams by descriptor numbers of its own. -/
namespace CompilerDriver.Machine

/-- Something that can be read from or written to. -/
inductive Stream where
  /-- Reads as empty and takes every write. -/
  | null
  /-- Takes no write. -/
  | full
  /-- Keeps everything that was written. -/
  | gathered (text : Bytes)
  /-- Holds what is still to be read. -/
  | supplied (rest : Bytes)
  /-- A place in a file, or always its end. -/
  | file (place : Location) (offset : Nat) (atEnd reads writes : Bool)
  deriving DecidableEq, Repr

structure World where
  fs : FileSystem
  streams : Array Stream := #[]
  /-- Running programs, by number. -/
  running : List Nat := []
  /-- Signals that have been sent: the program and the signal. -/
  signals : List (Nat × Nat) := []
  nextNumber : Nat := 2

namespace World

def addStream (w : World) (stream : Stream) : Nat × World :=
  (w.streams.size, { w with streams := w.streams.push stream })

/-- What was written to a stream that keeps it. -/
def gathered (w : World) (index : Nat) : Bytes :=
  match w.streams[index]? with
  | some (.gathered text) => text
  | _ => []

/-- A text with a part of it, or what follows it, replaced. A gap is filled with zero bytes. -/
def overwrite (content : Bytes) (offset : Nat) (text : Bytes) : Bytes :=
  content.take offset ++ List.replicate (offset - content.length) 0 ++ text
    ++ content.drop (offset + text.length)

def setStream (w : World) (index : Nat) (stream : Stream) : World :=
  { w with streams := w.streams.set! index stream }

/-- Writes to a stream; `none` where it takes no writes. What is written to a file that is gone
is lost. -/
def write (w : World) (index : Nat) (text : Bytes) : Option World :=
  match w.streams[index]? with
  | some .null => some w
  | some (.gathered before) => some (w.setStream index (.gathered (before ++ text)))
  | some (.file place offset atEnd reads true) =>
    match w.fs.node? place with
    | some (.file content executable) =>
      let start := if atEnd then content.length else offset
      some { w with
        fs := w.fs.insert place (.file (overwrite content start text) executable)
        streams := w.streams.set! index (.file place (start + text.length) atEnd reads true) }
    | _ => some w
  | _ => none

/-- What a stream still has to be read. -/
def remaining (w : World) (index : Nat) : Option Bytes :=
  match w.streams[index]? with
  | some .null => some []
  | some (.supplied rest) => some rest
  | some (.file place offset _ true _) =>
    match w.fs.node? place with
    | some (.file content _) => some (content.drop offset)
    | _ => some []
  | _ => none

/-- Counts bytes as read. -/
def consume (w : World) (index count : Nat) : World :=
  match w.streams[index]? with
  | some (.supplied rest) => w.setStream index (.supplied (rest.drop count))
  | some (.file place offset atEnd reads writes) =>
    w.setStream index (.file place (offset + count) atEnd reads writes)
  | _ => w

def streamOf (loc : Location) (reads writes atEnd : Bool) : Node → Stream
  | .directory => .supplied []
  | .file .. => .file loc 0 atEnd reads writes
  | .device .null => .null
  | .device .full => .full

def openToRead (w : World) (p : Path) : Except SystemError (Nat × World) := do
  let (loc, node) ← w.fs.find p
  return w.addStream (streamOf loc true false false node)

inductive WriteMode where
  | truncate
  | append
  /-- Reads as well, and keeps what was there. -/
  | update
  deriving DecidableEq, Repr

/-- Opens a file to write to it. It is created where it is missing. -/
def openToWrite (w : World) (p : Path) (mode : WriteMode) : Except SystemError (Nat × World) := do
  let loc ← w.fs.resolve p
  if p.endsInSlash then .error .isADirectory
  else match w.fs.node? loc with
    | some .directory => .error .isADirectory
    | some (.device device) => .ok (w.addStream (streamOf loc false true false (.device device)))
    | some (.file content executable) =>
      let kept := if mode = WriteMode.truncate then [] else content
      let node := Node.file kept executable
      .ok ({ w with fs := w.fs.insert loc node }.addStream
        (streamOf loc (mode == WriteMode.update) true (mode == WriteMode.append) node))
    | none =>
      let node := Node.file [] false
      .ok ({ w with fs := w.fs.insert loc node }.addStream
        (streamOf loc (mode == WriteMode.update) true (mode == WriteMode.append) node))

/-- Sends a signal to a running program. -/
def send (w : World) (number signal : Nat) : Option World :=
  if number ∈ w.running then some { w with signals := w.signals ++ [(number, signal)] } else none

/-- Takes the first signal sent to a program out of the queue. -/
def receive (w : World) (number : Nat) : Option (Nat × World) :=
  match w.signals.find? (·.1 = number) with
  | some (_, signal) => some (signal, { w with signals := w.signals.erase (number, signal) })
  | none => none

/-- A program starts. -/
def enter (w : World) : Nat × World :=
  (w.nextNumber, { w with nextNumber := w.nextNumber + 1, running := w.nextNumber :: w.running })

/-- A program ends, and the directory is again that of the program that started it. -/
def leave (w : World) (number : Nat) (workingDir : Location) : World :=
  { w with
    running := w.running.filter (· ≠ number)
    signals := w.signals.filter (·.1 ≠ number)
    fs := { w.fs with workingDir := workingDir } }

end World

/-- What a program is started with: its own number and that of the program that starts it, its
words, the first of which is its name, its environment, and the streams behind its descriptors. -/
structure Process where
  number : Nat
  parent : Nat
  words : List Bytes
  env : Environment
  streams : List (Nat × Nat)
  /-- Signals that it is started to ignore. -/
  ignored : List Nat := []

/-- Starts the program at a path in the place of a process, and says how it ends. -/
abbrev Starter := Process → Path → World → Except SystemError (Ending × World)

namespace Process

def name (p : Process) : Bytes := p.words.headD []

def args (p : Process) : List Bytes := p.words.drop 1

def write (p : Process) (descriptor : Nat) (text : Bytes) (w : World) : Option World := do
  w.write (← p.streams.lookup descriptor) text

end Process

end CompilerDriver.Machine
