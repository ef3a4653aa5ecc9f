set_option autoImplicit false

/-!
# Opcodes

The instruction set of conversation code: 42 opcodes, numbered from zero, each with its mnemonic, the
way its operand word is shown, and, for operators, its text in source form and how tightly it binds.
An opcode has one operand word or none.
-/

namespace Parley

/-- An operation of the stack machine, in the order of the code words that stand for them. -/
inductive Opcode where
  /-- NOP: no operation. -/
  | nop
  /-- OPADD: pushes s[1] + s[0]. -/
  | add
  /-- OPMUL: pushes s[1] * s[0]. -/
  | mul
  /-- OPSUB: pushes s[1] - s[0]. -/
  | sub
  /-- OPDIV: pushes s[1] / s[0]. -/
  | div
  /-- OPMOD: pushes s[1] % s[0]. -/
  | mod
  /-- OPOR: pushes s[1] || s[0]. -/
  | or
  /-- OPAND: pushes s[1] && s[0]. -/
  | and
  /-- OPNOT: pushes !s[0]. -/
  | not
  /-- TSTGT: pushes s[1] > s[0]. -/
  | testGt
  /-- TSTGE: pushes s[1] >= s[0]. -/
  | testGe
  /-- TSTLT: pushes s[1] < s[0]. -/
  | testLt
  /-- TSTLE: pushes s[1] <= s[0]. -/
  | testLe
  /-- TSTEQ: pushes s[1] == s[0]. -/
  | testEq
  /-- TSTNE: pushes s[1] != s[0]. -/
  | testNe
  /-- JMP: absolute jump. -/
  | jmp
  /-- BEQ: branch when s[0] == 0. -/
  | beq
  /-- BNE: branch when s[0] != 0. -/
  | bne
  /-- BRA: branch always. -/
  | bra
  /-- CALL: call local function. -/
  | call
  /-- CALLI: call imported function. -/
  | calli
  /-- RET: return; s[0] is the next instruction pointer. -/
  | ret
  /-- PUSHI: push immediate value. -/
  | pushi
  /-- PUSHI_EFF: push address of base pointer + offset. -/
  | pushiEff
  /-- POP: discard s[0]. -/
  | pop
  /-- SWAP: swap s[0] and s[1]. -/
  | swap
  /-- PUSHBP: push base pointer. -/
  | pushBp
  /-- POPBP: pop base pointer. -/
  | popBp
  /-- SPTOBP: base pointer = stack pointer. -/
  | spToBp
  /-- BPTOSP: stack pointer = base pointer. -/
  | bpToSp
  /-- ADDSP: reserve s[0] stack slots. -/
  | addSp
  /-- FETCHM: push memory value at address s[0]. -/
  | fetchm
  /-- STO: store s[0] at address s[1]. -/
  | sto
  /-- OFFSET: push array element address s[0] + s[1] - 1. -/
  | offset
  /-- START: start program. -/
  | start
  /-- SAVE_REG: pop s[0] into the result register. -/
  | saveReg
  /-- PUSH_REG: push the result register. -/
  | pushReg
  /-- STRCMP: string compare (unused). -/
  | strCmp
  /-- EXIT_OP: end program. -/
  | exitOp
  /-- SAY_OP: NPC says string s[0]. -/
  | sayOp
  /-- RESPOND_OP: respond (no effect). -/
  | respondOp
  /-- OPNEG: pushes -s[0]. -/
  | neg
  deriving DecidableEq, Inhabited

/-- How an operand word is shown in listings. -/
inductive OperandFormat where
  /-- There is no operand. -/
  | none
  /-- A position in the code. -/
  | absolute
  /-- The distance of a branch, counted from the operand word. -/
  | relative
  /-- A value as it is. -/
  | immediate
  /-- A signed distance from the base pointer. -/
  | frame
  /-- The id of an imported function. -/
  | intrinsic
  deriving DecidableEq

/-- How tightly an expression binds that never needs parentheses. -/
def atomPrecedence : Nat := 255

/-- How tightly the two unary operators bind. -/
def unaryPrecedence : Nat := 7

/-- What the instruction set says of one opcode. -/
structure OpcodeInfo where
  mnemonic : String
  format : OperandFormat
  /-- The operator in source form, empty for opcodes that are no operators. -/
  operatorText : String
  /-- How tightly the operator binds; a higher number binds tighter. -/
  precedence : Nat
  description : String

namespace Opcode

/-- The opcodes in the order of their numbers. -/
def all : List Opcode := [
  .nop, .add, .mul, .sub, .div, .mod, .or, .and, .not, .testGt, .testGe, .testLt, .testLe,
  .testEq, .testNe, .jmp, .beq, .bne, .bra, .call, .calli, .ret, .pushi, .pushiEff, .pop, .swap,
  .pushBp, .popBp, .spToBp, .bpToSp, .addSp, .fetchm, .sto, .offset, .start, .saveReg, .pushReg,
  .strCmp, .exitOp, .sayOp, .respondOp, .neg]

/-- The description of an opcode that is an operator. -/
private def operatorInfo (mnemonic text : String) (precedence : Nat) (description : String) :
    OpcodeInfo :=
  ⟨mnemonic, .none, text, precedence, description⟩

/-- The description of an opcode that is no operator. -/
private def plainInfo (mnemonic : String) (format : OperandFormat) (description : String) :
    OpcodeInfo :=
  ⟨mnemonic, format, "", atomPrecedence, description⟩

/-- The row of the instruction set for an opcode. -/
def info : Opcode → OpcodeInfo
  | .nop => plainInfo "NOP" .none "no operation"
  | .add => operatorInfo "OPADD" "+" 5 "pushes s[1] + s[0]"
  | .mul => operatorInfo "OPMUL" "*" 6 "pushes s[1] * s[0]"
  | .sub => operatorInfo "OPSUB" "-" 5 "pushes s[1] - s[0]"
  | .div => operatorInfo "OPDIV" "/" 6 "pushes s[1] / s[0]"
  | .mod => operatorInfo "OPMOD" "%" 6 "pushes s[1] % s[0]"
  | .or => operatorInfo "OPOR" "||" 1 "pushes s[1] || s[0]"
  | .and => operatorInfo "OPAND" "&&" 2 "pushes s[1] && s[0]"
  | .not => operatorInfo "OPNOT" "!" 7 "pushes !s[0]"
  | .testGt => operatorInfo "TSTGT" ">" 4 "pushes s[1] > s[0]"
  | .testGe => operatorInfo "TSTGE" ">=" 4 "pushes s[1] >= s[0]"
  | .testLt => operatorInfo "TSTLT" "<" 4 "pushes s[1] < s[0]"
  | .testLe => operatorInfo "TSTLE" "<=" 4 "pushes s[1] <= s[0]"
  | .testEq => operatorInfo "TSTEQ" "==" 3 "pushes s[1] == s[0]"
  | .testNe => operatorInfo "TSTNE" "!=" 3 "pushes s[1] != s[0]"
  | .jmp => plainInfo "JMP" .absolute "absolute jump"
  | .beq => plainInfo "BEQ" .relative "branch when s[0] == 0"
  | .bne => plainInfo "BNE" .relative "branch when s[0] != 0"
  | .bra => plainInfo "BRA" .relative "branch always"
  | .call => plainInfo "CALL" .absolute "call local function"
  | .calli => plainInfo "CALLI" .intrinsic "call imported function"
  | .ret => plainInfo "RET" .none "return; s[0] is the next instruction pointer"
  | .pushi => plainInfo "PUSHI" .immediate "push immediate value"
  | .pushiEff => plainInfo "PUSHI_EFF" .frame "push address of base pointer + offset"
  | .pop => plainInfo "POP" .none "discard s[0]"
  | .swap => plainInfo "SWAP" .none "swap s[0] and s[1]"
  | .pushBp => plainInfo "PUSHBP" .none "push base pointer"
  | .popBp => plainInfo "POPBP" .none "pop base pointer"
  | .spToBp => plainInfo "SPTOBP" .none "base pointer = stack pointer"
  | .bpToSp => plainInfo "BPTOSP" .none "stack pointer = base pointer"
  | .addSp => plainInfo "ADDSP" .none "reserve s[0] stack slots"
  | .fetchm => plainInfo "FETCHM" .none "push memory value at address s[0]"
  | .sto => plainInfo "STO" .none "store s[0] at address s[1]"
  | .offset => plainInfo "OFFSET" .none "push array element address s[0] + s[1] - 1"
  | .start => plainInfo "START" .none "start program"
  | .saveReg => plainInfo "SAVE_REG" .none "pop s[0] into the result register"
  | .pushReg => plainInfo "PUSH_REG" .none "push the result register"
  | .strCmp => plainInfo "STRCMP" .none "string compare (unused)"
  | .exitOp => plainInfo "EXIT_OP" .none "end program"
  | .sayOp => plainInfo "SAY_OP" .none "NPC says string s[0]"
  | .respondOp => plainInfo "RESPOND_OP" .none "respond (no effect)"
  | .neg => operatorInfo "OPNEG" "-" 7 "pushes -s[0]"

/-- The name of the opcode in listings and assembly text. -/
def mnemonic (op : Opcode) : String := op.info.mnemonic

/-- Whether an operand word follows the opcode word. -/
def takesOperand (op : Opcode) : Bool := op.info.format ≠ .none

/-- The number of operand words. -/
def operandCount (op : Opcode) : Nat := if op.takesOperand then 1 else 0

/-- The operator in source form, empty for opcodes that are no operators. -/
def operatorText (op : Opcode) : String := op.info.operatorText

/-- How tightly the operator binds. -/
def precedence (op : Opcode) : Nat := op.info.precedence

/-- The code word that stands for an opcode. -/
def toWord (op : Opcode) : UInt16 := UInt16.ofNat op.ctorIdx

/-- The opcode that a code word stands for. -/
def ofWord? (word : UInt16) : Option Opcode := all[word.toNat]?

/-- The opcode with a mnemonic, in letters of either case. -/
def ofMnemonic? (name : String) : Option Opcode :=
  all.find? fun op => op.mnemonic = name.map Char.toUpper

theorem ofWord?_toWord (op : Opcode) : ofWord? op.toWord = some op := by
  cases op <;> rfl

end Opcode

end Parley
