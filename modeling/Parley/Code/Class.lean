import Parley.Code.Opcode
set_option autoImplicit false

/-!
# Classes of opcodes

A coarse grouping of the instruction set: operators, jumps, calls, pushes, frame bookkeeping, memory
access, the result register and the conversation primitives.
-/

namespace Parley

/-- The kinds of access through a pushed address. -/
inductive MemoryAccess where
  | load
  | store
  | index
  deriving DecidableEq

/-- The kinds of bookkeeping on base pointer and stack pointer. -/
inductive FrameStep where
  | pushBp
  | popBp
  | spToBp
  | bpToSp
  | addSp
  deriving DecidableEq

/-- What an opcode is for. -/
inductive OpcodeClass where
  /-- Arithmetic, logic and comparison of two operands. -/
  | binary
  /-- Negation, of a number or of a truth value. -/
  | unary
  /-- A jump or branch. -/
  | jump (relative conditional : Bool)
  /-- A call of a local or of an imported function. -/
  | call (intrinsic : Bool)
  /-- The return from a function. -/
  | return
  /-- The push of a literal or of an address relative to the base pointer. -/
  | push
  /-- Bookkeeping on base pointer and stack pointer. -/
  | frame (step : FrameStep)
  /-- Access through a pushed address. -/
  | memory (access : MemoryAccess)
  /-- Access to the result register. -/
  | register
  /-- Start, end and speech of the conversation. -/
  | conversation
  /-- Everything else. -/
  | other
  deriving DecidableEq

namespace OpcodeClass

/-- Whether the class computes a value from operands. -/
def isOperator : OpcodeClass → Bool
  | .binary | .unary => true
  | _ => false

/-- Whether the class goes through a pushed address. -/
def isMemory : OpcodeClass → Bool
  | .memory _ => true
  | _ => false

/-- Whether the operand leads to a position in the code. -/
def hasCodeTarget : OpcodeClass → Bool
  | .jump _ _ | .call false => true
  | _ => false

end OpcodeClass

/-- The class of an opcode. -/
def Opcode.opcodeClass : Opcode → OpcodeClass
  | .add | .mul | .sub | .div | .mod | .or | .and | .testGt | .testGe | .testLt | .testLe
  | .testEq | .testNe => .binary
  | .neg | .not => .unary
  | .jmp => .jump false false
  | .bra => .jump true false
  | .beq | .bne => .jump true true
  | .call => .call false
  | .calli => .call true
  | .ret => .return
  | .pushi | .pushiEff => .push
  | .pushBp => .frame .pushBp
  | .popBp => .frame .popBp
  | .spToBp => .frame .spToBp
  | .bpToSp => .frame .bpToSp
  | .addSp => .frame .addSp
  | .fetchm => .memory .load
  | .sto => .memory .store
  | .offset => .memory .index
  | .saveReg | .pushReg => .register
  | .exitOp | .sayOp | .respondOp | .start => .conversation
  | .nop | .pop | .swap | .strCmp => .other

end Parley
