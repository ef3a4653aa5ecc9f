import Parley.Code.Instruction
import Parley.Machine.Step
import Parley.SortedMap
set_option autoImplicit false

/-!
# Views of a machine

What the debugger shows: instructions with their words, the stack, the registers, and the state of the
session.  All numbers are hexadecimal.
-/

namespace Parley.View

/-- The text of the command that explains the others. -/
def help : String :=
  "help      h  shows this help\n" ++
  "info      i  shows info about the machine, including breakpoints\n" ++
  "reg       r  shows registers\n" ++
  "list [n]  l  lists instructions from code position 0x<n> (or the current ip)\n" ++
  "dump      d  dumps the complete stack\n" ++
  "step [n]  s  executes n instructions (default 1)\n" ++
  "cont      c  continues until a breakpoint is reached or the conversation ends\n" ++
  "break n   b  toggles a breakpoint at code position 0x<n>\n" ++
  "verbose   v  toggles verbose output\n" ++
  "reset        restarts the conversation and deletes all breakpoints\n" ++
  "exit      x  quits the debugger\n"

/-- The line for the instruction at `pos`, whose first word is `word`, and the number of its words. -/
def instructionLine (code : CodeWords) (pos word : UInt16) : String × UInt16 :=
  let front := Text.hexWord pos ++ " " ++ Text.hexWord word ++ " "
  match Instruction.decode code pos with
  | .ok instruction =>
    let operand := match instruction.operand with
      | some operand => Text.hexWord operand
      | none => "    "
    (front ++ operand ++ "    " ++ instruction.text ++ "\n", UInt16.ofNat instruction.length)
  | .error fault => (front ++ "         ??? (" ++ fault.message ++ ")\n", 1)

/-- The lines for `count` instructions from `pos` on, fewer at the end of the code. -/
def instructions (code : CodeWords) (pos : UInt16) : Nat → String
  | 0 => ""
  | count + 1 =>
    match code[pos.toNat]? with
    | none => ""
    | some word =>
      let (line, length) := instructionLine code pos word
      line ++ instructions code (pos + length) count

/-- The registers. -/
def registers (m : Machine) : String :=
  "registers:\ninstrp: " ++ Text.hexWord m.ip ++ "   stackp: " ++ Text.hexWord m.stack.sp ++
    "   basep: " ++ Text.hexWord m.bp ++ "   result_reg: " ++ Text.hexWord m.result ++ "\n"

/-- An element of the stack, with the number of its slot at the start of each row of eight. -/
def stackCell (cell : UInt16 × Nat) : String :=
  let front := if cell.2 % 8 = 0 then Text.hex 4 cell.2 ++ ":  " else ""
  let back := if cell.2 % 8 = 7 then "\n" else ""
  front ++ Text.hexWord cell.1 ++ " " ++ back

/-- The elements of the stack. -/
def stack (s : OperandStack) : String :=
  "stackp = " ++ Text.hexWord s.sp ++ "\n" ++ String.join (s.contents.zipIdx.map stackCell) ++ "\n"

/-- The state of a switch. -/
def onOff (enabled : Bool) : String := if enabled then "on" else "off"

/-- The breakpoints in order. -/
def breakpoints (positions : List UInt16) : String :=
  if positions.isEmpty then "no breakpoints set.\n"
  else "breakpoints: " ++ String.intercalate " " (positions.map Text.hexWord) ++ "\n"

/-- The state of a session. -/
def info (m : Machine) (verbose : Bool) (positions : List UInt16) : String :=
  let image := m.image
  let slot := match image.slot with
    | some slot => "conversation #" ++ Text.decimal slot ++ ", "
    | none => ""
  slot ++ "string block " ++ Text.hexWord image.stringBlock ++ "\n" ++
    "code size: " ++ Text.hex 4 image.code.size ++ ", call depth: " ++ toString m.depth ++
    ", verbose: " ++ onOff verbose ++ "\n" ++
    "private globals: " ++ Text.hexWord image.reservedGlobals ++
    "; imported functions: " ++ Text.hex 4 image.functions.size ++
    "; imported globals: " ++ Text.hex 4 image.globals.size ++ "\n" ++
    breakpoints positions

end Parley.View
