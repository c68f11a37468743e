/-! Events of a log: a level, a message and named values. A log shows the events up to its level,
each as an entry of its own. In plain text a message or value may run over several lines; as JSON
an entry is always one line. -/
namespace CompilerDriver

inductive LogLevel where
  | error
  | warn
  | info
  | debug
  | trace
  deriving DecidableEq, Repr

namespace LogLevel

def name : LogLevel → String
  | error => "error"
  | warn => "warn"
  | info => "info"
  | debug => "debug"
  | trace => "trace"

/-- From the most severe to the least. -/
def all : List LogLevel := [error, warn, info, debug, trace]

def ofName? (name : String) : Option LogLevel := all.find? (·.name = name)

def ofVerbosity (verbose : UInt8) : LogLevel :=
  if verbose = 0 then .warn else if verbose = 1 then .info else if verbose = 2 then .debug
  else .trace

/-- Whether a log at a level shows events of another level. -/
def shows (level other : LogLevel) : Bool := all.idxOf other ≤ all.idxOf level

end LogLevel

inductive LogFormat where
  | pretty
  | json
  deriving DecidableEq, Repr

namespace LogFormat

def ofName? (name : String) : Option LogFormat :=
  if name = "pretty" then some .pretty else if name = "json" then some .json else none

end LogFormat

inductive LogValue where
  | number (n : Nat)
  | text (s : String)
  deriving DecidableEq, Repr

namespace LogValue

def plain : LogValue → String
  | number n => toString n
  | text s => s

end LogValue

structure LogEvent where
  level : LogLevel
  message : String
  fields : List (String × LogValue) := []
  deriving DecidableEq, Repr

namespace LogEvent

def levelName (e : LogEvent) : String := e.level.name.map Char.toUpper

def plainFields (e : LogEvent) : String :=
  String.join (e.fields.map fun (name, value) => " " ++ name ++ "=" ++ value.plain)

/-- The level, the message, and the fields as `name=value`. -/
def plain (e : LogEvent) : String := e.levelName ++ " " ++ e.message ++ e.plainFields

def hexadecimal (digits n : Nat) : String :=
  let all := Nat.toDigits 16 n
  String.ofList (List.replicate (digits - all.length) '0' ++ all)

/-- A character that could steer a terminal is shown by its number. -/
def harmless (c : Char) : String :=
  if c ∈ ['\x1b', '\x07', '\x08', '\x0c', '\x7f'] then "\\x" ++ hexadecimal 2 c.toNat
  else if 0x80 ≤ c.toNat ∧ c.toNat ≤ 0x9F then
    "\\u\x7b" ++ hexadecimal 2 c.toNat ++ "\x7d"
  else c.toString

/-- A text between quotes. Line ends and other control characters are escaped. -/
def quoted (s : String) : String :=
  let escape (c : Char) : String :=
    if c = '"' then "\\\""
    else if c = '\\' then "\\\\"
    else if c = '\n' then "\\n"
    else if c = '\r' then "\\r"
    else if c = '\t' then "\\t"
    else if c = '\x08' then "\\b"
    else if c = '\x0c' then "\\f"
    else if c.toNat < 0x20 then "\\u" ++ hexadecimal 4 c.toNat
    else c.toString
  "\"" ++ String.join (s.toList.map escape) ++ "\""

/-- An object that holds the level, and the message among the fields. -/
def json (e : LogEvent) : String :=
  let pair (name value : String) : String := quoted name ++ ":" ++ value
  let object (pairs : List String) : String := "\x7b" ++ ",".intercalate pairs ++ "\x7d"
  let fields := e.fields.map fun (name, value) =>
    match value with
    | .number n => pair name (toString n)
    | .text s => pair name (quoted s)
  object [pair "level" (quoted e.levelName),
    pair "fields" (object (pair "message" (quoted e.message) :: fields))]

/-- The entry of an event in a log. -/
def entry (format : LogFormat) (e : LogEvent) : String :=
  match format with
  | .pretty =>
    ({ e with message := String.join (e.message.toList.map harmless) } : LogEvent).plain ++ "\n"
  | .json => e.json ++ "\n"

end LogEvent

/-- Which events are shown, and how. -/
structure Log where
  level : LogLevel := .warn
  format : LogFormat := .pretty
  deriving DecidableEq, Repr

namespace Log

def shown (log : Log) (events : List LogEvent) : String :=
  String.join ((events.filter fun e => log.level.shows e.level).map (·.entry log.format))

end Log

end CompilerDriver
