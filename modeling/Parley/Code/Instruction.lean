import Parley.Code.Opcode
import Parley.Text.Number
set_option autoImplicit false

/-!
# Instructions

An instruction is an opcode with its operand word, if it takes one.  `Instruction.decode` reads the
one at a position of a code segment; `Instruction.jumpTarget?` says where it leads.  Positions are
words, so targets and lengths wrap at 16 bits.
-/

namespace Parley

/-- The words of a code segment. -/
abbrev CodeWords := Array UInt16

/-- Why there is no instruction at a position. -/
inductive DecodeFault where
  /-- The word there stands for no opcode. -/
  | unknownOpcode (pos word : UInt16)
  /-- The code ends before the operand word. -/
  | missingOperand (pos : UInt16) (opcode : Opcode)
  /-- The position lies behind the end of the code. -/
  | outOfBounds (pos : UInt16)
  deriving DecidableEq

/-- The wording of a decoding fault. -/
def DecodeFault.message : DecodeFault → String
  | .unknownOpcode pos word =>
    "unknown opcode " ++ Text.hexWordMarked word ++ " at " ++ Text.hexWord pos
  | .missingOperand pos opcode =>
    "opcode " ++ opcode.mnemonic ++ " at " ++ Text.hexWord pos ++ " is missing its operand word"
  | .outOfBounds pos =>
    "code position " ++ Text.hexWord pos ++ " is outside the code segment"

/-- An opcode and the operand word behind it. -/
structure Instruction where
  opcode : Opcode
  operand : Option UInt16
  deriving DecidableEq

namespace Instruction

/-- The instruction at `pos`. -/
def decode (code : CodeWords) (pos : UInt16) : Except DecodeFault Instruction :=
  match code[pos.toNat]? with
  | none => .error (.outOfBounds pos)
  | some word =>
    match Opcode.ofWord? word with
    | none => .error (.unknownOpcode pos word)
    | some opcode =>
      if opcode.takesOperand then
        match code[pos.toNat + 1]? with
        | none => .error (.missingOperand pos opcode)
        | some operand => .ok ⟨opcode, some operand⟩
      else .ok ⟨opcode, none⟩

/-- The number of words the instruction takes in the code. -/
def length (instruction : Instruction) : Nat := 1 + instruction.opcode.operandCount

/-- The position that a jump, branch or local call at `pos` leads to.  Branches count from their
operand word. -/
def jumpTarget? (instruction : Instruction) (pos : UInt16) : Option UInt16 :=
  instruction.operand.bind fun operand =>
    match instruction.opcode with
    | .jmp | .call => some operand
    | .beq | .bne | .bra => some (operand + pos + 1)
    | _ => none

/-- The instruction as a line of a listing. -/
def text (instruction : Instruction) : String :=
  match instruction.operand with
  | none => instruction.opcode.mnemonic
  | some operand =>
    let mark := match instruction.opcode.info.format with
      | .relative => " +"
      | .immediate => " #"
      | _ => " $"
    instruction.opcode.mnemonic ++ mark ++ Text.hexWord operand

end Instruction

/-! ## The linear sweep -/

/-- What the sweep finds at one position. -/
structure SweepEntry where
  pos : UInt16
  decoded : Except DecodeFault Instruction

/-- The number of words that the sweep passes over from word `index` on, where `decoded` was found: an
instruction's length, one unknown word, or all that is left behind a missing operand. -/
def sweepStride (code : CodeWords) (index : Nat) : Except DecodeFault Instruction → Nat
  | .ok instruction => instruction.length
  | .error (.missingOperand _ _) => code.size - index
  | .error _ => 1

/-- The sweep from word `index` on, for at most `fuel` entries. -/
def sweepFrom (code : CodeWords) : Nat → Nat → List SweepEntry
  | 0, _ => []
  | fuel + 1, index =>
    if index < code.size then
      let pos := UInt16.ofNat index
      let decoded := Instruction.decode code pos
      ⟨pos, decoded⟩ :: sweepFrom code fuel (index + sweepStride code index decoded)
    else []

/-- What stands in the code, read from its start instruction by instruction.  Every entry takes a word
at least, so there are no more entries than words. -/
def sweep (code : CodeWords) : List SweepEntry := sweepFrom code code.size 0

end Parley
