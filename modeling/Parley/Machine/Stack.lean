import Parley.Code.Opcode
import Parley.Text.Number
set_option autoImplicit false

/-!
# Faults and the operand stack

The operand stack is the machine's memory as well: globals live in its lowest slots, and addresses are
slot numbers.  The stack pointer is the number of the topmost slot, and 0xffff when the stack is empty,
so all of its arithmetic wraps.  An operation that faults leaves the stack as it was.
-/

namespace Parley

/-- Why the machine stopped short. -/
inductive MachineFault where
  /-- The divisor of a division or remainder is zero. -/
  | divisionByZero (pos : UInt16)
  /-- The word stands for no opcode. -/
  | unknownOpcode (pos word : UInt16)
  /-- The machine does not carry out this opcode. -/
  | unsupportedOpcode (pos : UInt16) (opcode : Opcode)
  /-- There is no slot with this number. -/
  | stackOverflow (index : UInt16)
  /-- The stack holds no such element. -/
  | stackUnderflow (index : UInt16)
  /-- The conversation imports no function with this id. -/
  | unknownIntrinsic (pos id : UInt16)
  /-- Too many calls are open. -/
  | callDepthExceeded (pos : UInt16)
  /-- There is no local string with this id. -/
  | stringOutOfRange (pos id : UInt16)
  /-- The code has no word at this position. -/
  | codeOutOfBounds (pos : UInt16)
  /-- The machine has stopped before. -/
  | finished
  deriving DecidableEq

/-- The wording of a machine fault. -/
def MachineFault.message : MachineFault → String
  | .divisionByZero pos => "division by zero at " ++ Text.hexWord pos
  | .unknownOpcode pos word =>
    "unknown opcode " ++ Text.hexWordMarked word ++ " at " ++ Text.hexWord pos
  | .unsupportedOpcode pos opcode =>
    "opcode " ++ opcode.mnemonic ++ " at " ++ Text.hexWord pos ++ " is not supported"
  | .stackOverflow index => "stack overflow at index " ++ Text.hexWordMarked index
  | .stackUnderflow index => "stack underflow at index " ++ Text.hexWordMarked index
  | .unknownIntrinsic pos id =>
    "unknown intrinsic " ++ Text.hexWordMarked id ++ " called at " ++ Text.hexWord pos
  | .callDepthExceeded pos => "call depth exceeded at " ++ Text.hexWord pos
  | .stringOutOfRange pos id =>
    "local string " ++ Text.hexWordMarked id ++ " used at " ++ Text.hexWord pos ++ " does not exist"
  | .codeOutOfBounds pos =>
    "instruction pointer " ++ Text.hexWord pos ++ " is outside the code segment"
  | .finished => "conversation has already finished"

/-- The stack and memory of the machine. -/
structure OperandStack where
  slots : Array UInt16
  /-- The number of the topmost slot. -/
  sp : UInt16
  deriving DecidableEq

namespace OperandStack

/-- The stack pointer of an empty stack. -/
def emptySp : UInt16 := 0xffff

/-- The number of slots of the machine's stack. -/
def standardSize : Nat := 4096

/-- An empty stack of `size` slots, all zero. -/
def ofSize (size : Nat) : OperandStack := ⟨Array.replicate size 0, emptySp⟩

/-- The same stack, empty and with all slots zero. -/
def reset (stack : OperandStack) : OperandStack := ofSize stack.slots.size

/-- The number of elements. -/
def depth (stack : OperandStack) : Nat := (stack.sp + 1).toNat

/-- The elements, from the bottom to the top. -/
def contents (stack : OperandStack) : List UInt16 := stack.slots.toList.take stack.depth

/-- The value of the slot `index`. -/
def get (stack : OperandStack) (index : UInt16) : Except MachineFault UInt16 :=
  match stack.slots[index.toNat]? with
  | some value => .ok value
  | none => .error (.stackOverflow index)

/-- Whether there is a slot `index`. -/
def hasSlot (stack : OperandStack) (index : UInt16) : Bool := index.toNat < stack.slots.size

/-- The stack with the slot `index` written, if there is one. -/
def write (stack : OperandStack) (index value : UInt16) : OperandStack :=
  { stack with slots := stack.slots.setIfInBounds index.toNat value }

/-- The stack with one more element, which is `value` if there is a slot for it. -/
def extend (stack : OperandStack) (value : UInt16) : OperandStack where
  slots := stack.slots.setIfInBounds (stack.sp + 1).toNat value
  sp := stack.sp + 1

/-- Write the slot `index`. -/
def set (stack : OperandStack) (index value : UInt16) : Except MachineFault OperandStack :=
  if stack.hasSlot index then .ok (stack.write index value) else .error (.stackOverflow index)

/-- Put a value on top. -/
def push (stack : OperandStack) (value : UInt16) : Except MachineFault OperandStack :=
  if stack.hasSlot (stack.sp + 1) then .ok (stack.extend value)
  else .error (.stackOverflow (stack.sp + 1))

/-- Take the topmost value off. -/
def pop (stack : OperandStack) : Except MachineFault (UInt16 × OperandStack) :=
  if stack.sp = emptySp then .error (.stackUnderflow stack.sp)
  else (stack.get stack.sp).map fun value => (value, { stack with sp := stack.sp - 1 })

/-- Move the stack pointer, to a slot or to the empty stack. -/
def setSp (stack : OperandStack) (sp : UInt16) : Except MachineFault OperandStack :=
  if sp = emptySp ∨ sp.toNat < stack.slots.size then .ok { stack with sp }
  else .error (.stackOverflow sp)

end OperandStack

end Parley
