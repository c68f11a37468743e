import CompilerDriver.Session

/-! The error output of a session: the log, what the tools complain about, reports of success, and
the failure, in the order in which they arise. -/
namespace CompilerDriver

namespace LogEvent

def created (temporary : Path) : LogEvent :=
  { level := .debug
    message := "adding temporary file"
    fields := [("path", .text temporary.display)] }

def running (command : Command) : LogEvent :=
  { level := .debug, message := "running", fields := [("command", .text command.display)] }

def notRemoved (temporary : Path) (error : SystemError) : LogEvent :=
  { level := .debug
    message := "failed to remove temporary file"
    fields := [("error", .text error.text), ("path", .text temporary.display)] }

end LogEvent

namespace SessionError

/-- The text that is shown for an error. Each line of the message is indented. An error without a
diagnostic is logged. -/
def shown (log : Log) (e : SessionError) : String :=
  match e.diagnostic? with
  | some d =>
    let message := "\n  │ ".intercalate ((d.text.toList.splitOn '\n').map String.ofList)
    d.kind.code ++ "\n\n  × " ++ message ++ "\n  help: " ++ d.kind.help ++ "\n"
  | none => log.shown [{ level := .error, message := e.message }]

end SessionError

namespace SessionOutcome

def isFinal : Notice → Bool
  | .finished .. => true
  | _ => false

/-- What a command leaves on the error output. -/
def shownCall (log : Log) (call : Call) : Bytes :=
  (if call.isInvoked then Utf8.encode (log.shown [.running call.command]) else [])
    ++ call.complaints

/-- Everything on the error output of a session with some log. -/
def errorOutput (o : SessionOutcome) (log : Log) : Bytes :=
  let logged (events : List LogEvent) : Bytes := Utf8.encode (log.shown events)
  logged ((o.notices.filter (!isFinal ·)).map Notice.event)
    ++ logged (o.temporaries.map .created)
    ++ o.calls.flatMap (shownCall log)
    ++ logged (o.stuck.map fun (temporary, error) => .notRemoved temporary error)
    ++ logged ((o.notices.filter isFinal).map Notice.event)
    ++ Utf8.encode (String.join (o.reports.map (· ++ "\n")))
    ++ Utf8.encode ((o.failure.map (SessionError.shown log)).getD "")

end SessionOutcome

end CompilerDriver
