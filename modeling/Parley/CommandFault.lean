import Parley.Image.Binary
import Parley.Machine.Stack
import Parley.Decompile.State
import Parley.Text.Lossy
set_option autoImplicit false

/-!
# Files and faults of commands

A command sees of a file that it is missing, that it cannot be read, or its bytes.  Whatever stops a
command is one of the faults below; the wording says which part of the work stopped and why.
-/

namespace Parley

/-- What a command finds at a path. -/
inductive FileState where
  | missing
  /-- There is something, but its content cannot be read. -/
  | unreadable
  | content (bytes : List UInt8)

/-- What stops a command. -/
inductive CommandFault where
  /-- A file cannot be read or written. -/
  | file (path : String)
  | load (fault : LoadFault)
  | decompile (fault : DecompileFault)
  | machine (fault : MachineFault)
  /-- A file is no JSON of the wanted shape. -/
  | json (path : String)
  /-- A file is no TOML of the wanted shape. -/
  | toml (path : String)
  /-- Settings or arguments do not fit together. -/
  | configuration (reason : String)

/-- The wording of a fault. -/
def CommandFault.message : CommandFault → String
  | .file path => "i/o error: " ++ path
  | .load fault => "failed to load conversation: " ++ fault.message
  | .decompile fault => "decompilation failed: " ++ fault.message
  | .machine fault => "conversation fault: " ++ fault.message
  | .json path => "invalid JSON: " ++ path
  | .toml path => "invalid TOML: " ++ path
  | .configuration reason => "invalid configuration: " ++ reason

namespace FileState

/-- The bytes of a file that a command needs. -/
def bytes (file : FileState) (path : String) : Except CommandFault (List UInt8) :=
  match file with
  | content bytes => .ok bytes
  | missing | unreadable => .error (.file path)

/-- The text of a file that a command needs; it must be well-formed UTF-8. -/
def text (file : FileState) (path : String) : Except CommandFault String := do
  let bytes ← file.bytes path
  match Text.decodeStrict? bytes with
  | some text => .ok text
  | none => .error (.file path)

end FileState

end Parley
