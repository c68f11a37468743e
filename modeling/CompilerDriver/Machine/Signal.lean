/-! Signals by number, and how a process ends. -/
namespace CompilerDriver.Machine

/-- Signals with a meaning of their own, from one on. One that has lost its name goes by its
number. -/
def standardNames : List String :=
  ["HUP", "INT", "QUIT", "ILL", "TRAP", "ABRT", "BUS", "FPE", "KILL", "USR1", "SEGV", "USR2",
   "PIPE", "ALRM", "TERM", "16", "CHLD", "CONT", "STOP", "TSTP", "TTIN", "TTOU", "URG", "XCPU",
   "XFSZ", "VTALRM", "PROF", "WINCH", "IO", "PWR", "SYS", "32", "33"]

/-- The names of all signals, from one on. The further ones are counted from both ends. -/
def signalNames : List String :=
  standardNames ++ "RTMIN" :: ((List.range 15).map fun n => "RTMIN+" ++ toString (n + 1))
    ++ ((List.range 14).map fun n => "RTMAX-" ++ toString (14 - n)) ++ ["RTMAX"]

/-- One more than the greatest signal number. -/
def signalLimit : Nat := 65

def signalName? (signal : Nat) : Option String :=
  if signal = 0 then none else signalNames[signal - 1]?

def signalNamed? (name : String) : Option Nat :=
  (signalNames.idxOf? name.toUpper).map (· + 1)

def terminateSignal : Nat := 15

/-- What is said about a program that a signal has ended. -/
def signalTexts : List String :=
  ["Hangup", "Interrupt", "Quit", "Illegal instruction", "Trace/breakpoint trap", "Aborted",
   "Bus error", "Floating point exception", "Killed", "User defined signal 1",
   "Segmentation fault", "User defined signal 2", "Broken pipe", "Alarm clock", "Terminated",
   "Stack fault", "Child exited", "Continued", "Stopped (signal)", "Stopped",
   "Stopped (tty input)", "Stopped (tty output)", "Urgent I/O condition",
   "CPU time limit exceeded", "File size limit exceeded", "Virtual timer expired",
   "Profiling timer expired", "Window changed", "I/O possible", "Power failure",
   "Bad system call"]

/-- The texts of the further signals are numbered from the first of them that has a name. -/
def signalText (signal : Nat) : String :=
  (signalTexts[signal - 1]?).getD
    (if signal < 34 then "Unknown signal " ++ toString signal
      else "Real-time signal " ++ toString (signal - 34))

/-- Signals by which programs are stopped all the time. -/
def isQuiet (signal : Nat) : Bool := signal == 2 || signal == 13

/-- Signals that can be neither caught nor ignored. -/
def isUnstoppable (signal : Nat) : Bool := signal == 9 || signal == 19

/-- Signals that leave a process as it is unless it asks for them. -/
def isHarmless (signal : Nat) : Bool := [0, 17, 18, 23, 28].contains signal

inductive Ending where
  | exited (status : Nat)
  | killed (signal : Nat)
  deriving DecidableEq, Repr

namespace Ending

def isSuccess (e : Ending) : Bool := e = exited 0

/-- The status that a shell shows for the end of a command. -/
def status : Ending → Nat
  | exited status => status
  | killed signal => 128 + signal

end Ending

end CompilerDriver.Machine
