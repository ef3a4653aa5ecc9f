import Parley.CommandLine.Perform
set_option autoImplicit false

/-!
# The command line tool

The outer layer: it lets a request be performed on the files that it names, and prints and writes what
comes of it.  A debugging session is led with the user line by line.  When a piece of the
session asks for a line that is not there yet, its text up to the question is printed, the line is read,
and the piece is done again with the line.
-/

namespace Parley.Tool

open CommandLine

/-- The code of the system for a directory where a file is wanted. -/
def isDirectoryCode : UInt32 := 21

/-- Whether an error says that a path leads to nothing. -/
def isAbsence : IO.Error → Bool
  | .noFileOrDirectory .. | .invalidArgument .. => true
  | .inappropriateType _ code _ => code ≠ isDirectoryCode
  | _ => false

/-- What is found at a path. -/
def readFile (path : String) : IO FileState := do
  try
    return .content (← IO.FS.readBinFile path).data.toList
  catch e => return if isAbsence e then .missing else .unreadable

/-- Print a fault as the reason for which the tool stops. -/
def complain (fault : CommandFault) : IO Unit := IO.eprintln ("error: " ++ fault.message)

/-- Write the new content of a file. -/
def writeFile (path : String) (bytes : List UInt8) : IO (Option CommandFault) := do
  try
    IO.FS.writeBinFile path ⟨bytes.toArray⟩
    return none
  catch _ => return some (.file path)

/-- Carry out the effect of a command. -/
def carryOut (e : Effect) : IO (Option CommandFault) := do
  IO.print e.output
  match e.written with
  | some (path, bytes) =>
    let fault ← writeFile path bytes
    return fault.or e.fault
  | none => return e.fault

/-- Print the pieces of text from number `shown` up to number `limit`. -/
def showPieces (s : Session) (shown limit : Nat) : IO Unit := do
  let out ← IO.getStdout
  let printed := s.console.printed
  let recent := (printed.drop (printed.length - limit)).take (limit - shown)
  out.putStr (String.join recent.reverse)
  out.flush

/-- Lead a session, of whose text `shown` pieces are printed, to its end. -/
partial def lead (s : Session) (shown : Nat) (atEnd : Bool) : IO Session := do
  if s.isOver then
    showPieces s shown s.console.printed.length
    return s
  let next := s.tick
  match next.console.starvedAt with
  | some asked =>
    if atEnd then
      showPieces next shown next.console.printed.length
      lead next next.console.printed.length atEnd
    else
      showPieces next shown asked
      let line ← (← IO.getStdin).getLine
      if line.isEmpty then lead s asked true
      else lead (s.supply (Console.linesOf line.toUTF8.data.toList)) asked false
  | none =>
    showPieces next shown next.console.printed.length
    lead next next.console.printed.length atEnd

/-- Perform a request; the result is the fault that stopped it. -/
def perform (request : Request) : IO (Option CommandFault) := do
  match ← (request.perform readFile).run with
  | .error fault => return some fault
  | .ok (.effect e) => carryOut e
  | .ok (.session s) => return sessionFault (← lead s 0 false)

/-- Do what the arguments ask for; the result is the exit code. -/
def run (arguments : List String) : IO UInt8 := do
  match request? arguments with
  | none =>
    IO.eprint usage
    return usageCode
  | some request =>
    let fault ← perform request
    match fault with
    | some fault => complain fault
    | none => pure ()
    return exitCode fault

end Parley.Tool

/-- The command line tool. -/
def main (arguments : List String) : IO UInt32 := do
  return (← Parley.Tool.run arguments).toUInt32
