import Parley.Text.Blank
import Parley.Text.Number
set_option autoImplicit false

/-!
# Debugger commands

A command is a line in small letters whose first word names it and whose second word may be its
argument.  Further words are ignored.
-/

namespace Parley

/-- What the user asks the debugger for. -/
inductive DebugCommand where
  | help
  /-- The state of the session. -/
  | info
  | registers
  /-- The instructions from a position, or from the present one. -/
  | list (start : Option UInt16)
  | dumpStack
  /-- Carry out some instructions. -/
  | step (count : Nat)
  /-- Carry out instructions up to a breakpoint or the end. -/
  | continue
  /-- Set or delete a breakpoint, if there is a position. -/
  | breakAt (pos : Option UInt16)
  | toggleVerbose
  | reset
  | exit
  | unknown (text : String)
  deriving DecidableEq

namespace DebugCommand

/-- A position without the `0x` marks in front of its digits. -/
def withoutMarks : List Char → List Char
  | '0' :: 'x' :: rest => withoutMarks rest
  | digits => digits

/-- A position as the user writes it, in hexadecimal digits. -/
def position? (word : List Char) : Option UInt16 :=
  Text.word? 16 (withoutMarks word)

/-- The largest number of steps. -/
def stepLimit : Nat := UInt64.size - 1

/-- The command that a text gives. -/
def ofText (text : String) : DebugCommand :=
  let words := Text.words text.toList
  let argument? := words[1]?
  match String.ofList (words.headD []) with
  | "help" | "h" | "?" => help
  | "info" | "i" => info
  | "reg" | "r" => registers
  | "list" | "l" => list (argument?.bind position?)
  | "dump" | "d" => dumpStack
  | "step" | "s" | "n" => step ((argument?.bind (Text.natural? 10 stepLimit)).getD 1)
  | "cont" | "c" => .continue
  | "break" | "b" => breakAt (argument?.bind position?)
  | "verbose" | "v" => toggleVerbose
  | "reset" => reset
  | "exit" | "x" | "quit" | "q" => exit
  | _ => unknown text

end DebugCommand

end Parley
