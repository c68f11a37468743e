import CompilerDriver.Command
import CompilerDriver.FileSystem

/-! Runners answer commands. A runner may remember what it was asked and may change the file
system; apart from that it is arbitrary, so a statement over all runners covers every way the
external tools can behave. -/
namespace CompilerDriver

/-- What became of a command: whether it ended with status zero, or why it could not be launched,
and what it wrote on its output and its error output. -/
structure Reply where
  status : Except SystemError Bool
  printed : Bytes := []
  complaints : Bytes := []

/-- One request to a runner. In a dry run commands are only echoed. -/
inductive Call where
  | invoked (command : Command) (reply : Reply)
  | echoed (command : Command)

namespace Call

def command : Call → Command
  | invoked command _ => command
  | echoed command => command

def isInvoked : Call → Bool
  | invoked .. => true
  | echoed _ => false

/-- What the call leaves on the standard output. -/
def printed : Call → Bytes
  | invoked _ reply => reply.printed
  | echoed command => Utf8.encode (command.display ++ "\n")

/-- What the call leaves on the error output. -/
def complaints : Call → Bytes
  | invoked _ reply => reply.complaints
  | echoed _ => []

end Call

structure Runner where
  answer : List Call → Command → FileSystem → Reply × FileSystem

/-- The file system and the requests made so far. -/
structure RunnerState where
  fs : FileSystem
  calls : List Call := []

namespace RunnerState

def invoke (s : RunnerState) (runner : Runner) (command : Command) :
    Except SystemError Bool × RunnerState :=
  let (reply, fs) := runner.answer s.calls command s.fs
  (reply.status, ⟨fs, s.calls ++ [.invoked command reply]⟩)

def echo (s : RunnerState) (command : Command) : RunnerState :=
  { s with calls := s.calls ++ [.echoed command] }

end RunnerState

end CompilerDriver
