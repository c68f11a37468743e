import CompilerDriver.Shell.Text
import CompilerDriver.SystemError

/-! What a shell says when something is wrong. -/
namespace CompilerDriver.Shell

namespace Complaint

def about (subject : Bytes) (text : String) : Bytes := subject ++ bytesOf (": " ++ text)

def notFound (name : Bytes) : Bytes := about name "not found"

/-- A missing file is described by what it was needed for. -/
def describe (error : SystemError) (missing : String) : String :=
  if error = .notFound ∨ error = .notADirectory then missing else error.description

def cannotStart (name : Bytes) (error : SystemError) : Bytes :=
  about name (describe error "not found")

def cannotOpen (path : Bytes) (error : SystemError) : Bytes :=
  bytesOf "cannot open " ++ about path (describe error "No such file")

def cannotCreate (path : Bytes) (error : SystemError) : Bytes :=
  bytesOf "cannot create " ++ about path (describe error "Directory nonexistent")

def cannotEnter (dir : Bytes) : Bytes := bytesOf "can't cd to " ++ dir

def badDescriptor (name : Bytes) : Bytes := about name "Bad file descriptor"

def badDescriptorName : Bytes := bytesOf "Syntax error: Bad fd number"

def notSet (name : Bytes) (orEmpty : Bool) : Bytes :=
  about name (if orEmpty then "parameter not set or null" else "parameter not set")

def badSubstitution : Bytes := bytesOf "Bad substitution"

def readOnly (name : Bytes) : Bytes := about name "is read only"

def badName (name : Bytes) : Bytes := about name "bad variable name"

def illegalNumber (text : Bytes) : Bytes := bytesOf "Illegal number: " ++ text

def illegalOption (option : Bytes) : Bytes := bytesOf "Illegal option " ++ option

def badFormula (problem : String) (text : Bytes) : Bytes :=
  bytesOf ("arithmetic expression: " ++ problem ++ ": \"") ++ text ++ bytesOf "\""

def syntaxError (message : String) : Bytes := bytesOf ("Syntax error: " ++ message)

end Complaint

end CompilerDriver.Shell
