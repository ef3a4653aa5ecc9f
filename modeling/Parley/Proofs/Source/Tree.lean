import Parley.Code.Class
import Parley.Code.Instruction
set_option autoImplicit false

/-!
# Straight-line source

Functions without jumps and calls, as they were written: statements over expression trees, with the
post-order code that stands for them.  Local variables lie at distances from the base pointer that are not
negative, parameters at negative ones; a parameter holds an address, which is why it is loaded twice.
-/

namespace Parley.Source

/-! ## Trees and statements -/

/-- The number of a local variable. -/
abbrev LocalIndex := {index : UInt16 // index ≤ 0x7fff}

/-- The negative distance of a parameter from the base pointer. -/
abbrev ParamOffset := {offset : UInt16 // 0x7fff < offset}

/-- An opcode that is a unary operator. -/
abbrev UnaryOpcode := {opcode : Opcode // opcode.opcodeClass = .unary}

/-- An opcode that is a binary operator. -/
abbrev BinaryOpcode := {opcode : Opcode // opcode.opcodeClass = .binary}

/-- An expression. -/
inductive Tree where
  | const (value : UInt16)
  | localVar (index : LocalIndex)
  | param (offset : ParamOffset)
  | global (slot : UInt16)
  | unary (opcode : UnaryOpcode) (operand : Tree)
  | binary (opcode : BinaryOpcode) (left right : Tree)

/-- A variable that can be assigned to. -/
inductive Place where
  | localVar (index : LocalIndex)
  | global (slot : UInt16)

/-- A statement. -/
inductive Stmt where
  /-- The value is computed before the address if `valueFirst`. -/
  | assign (place : Place) (value : Tree) (valueFirst : Bool)
  | say (id : UInt16)
  | return (value : Tree)
  | exit

/-! ## Code -/

/-- Push the value of a tree. -/
def Tree.code : Tree → List Instruction
  | const value => [⟨.pushi, some value⟩]
  | localVar index => [⟨.pushiEff, some index⟩, ⟨.fetchm, none⟩]
  | param offset => [⟨.pushiEff, some offset⟩, ⟨.fetchm, none⟩, ⟨.fetchm, none⟩]
  | global slot => [⟨.pushi, some slot⟩, ⟨.fetchm, none⟩]
  | unary opcode operand => operand.code ++ [⟨opcode, none⟩]
  | binary opcode left right => left.code ++ (right.code ++ [⟨opcode, none⟩])

/-- Push the address of a variable. -/
def Place.push : Place → Instruction
  | localVar index => ⟨.pushiEff, some index⟩
  | global slot => ⟨.pushi, some slot⟩

/-- Carry out a statement. -/
def Stmt.code : Stmt → List Instruction
  | assign place value false => place.push :: (value.code ++ [⟨.sto, none⟩])
  | assign place value true => value.code ++ [place.push, ⟨.swap, none⟩, ⟨.sto, none⟩]
  | say id => [⟨.pushi, some id⟩, ⟨.sayOp, none⟩]
  | .return value => value.code ++ [⟨.saveReg, none⟩, ⟨.pop, none⟩]
  | exit => [⟨.exitOp, none⟩]

/-- Carry out statements in turn. -/
def bodyCode (body : List Stmt) : List Instruction := body.flatMap Stmt.code

/-- The code in front of a body with a number of local variables. -/
def prologueCode (locals : UInt16) : List Instruction :=
  [⟨.pushBp, none⟩, ⟨.spToBp, none⟩, ⟨.pushi, some locals⟩, ⟨.addSp, none⟩]

/-- The code behind a body. -/
def epilogueCode : List Instruction := [⟨.bpToSp, none⟩, ⟨.popBp, none⟩, ⟨.ret, none⟩]

/-- A function. -/
def functionCode (locals : UInt16) (body : List Stmt) : List Instruction :=
  prologueCode locals ++ (bodyCode body ++ epilogueCode)

/-- The words of instructions. -/
def encode (code : List Instruction) : List UInt16 :=
  code.flatMap fun instruction => instruction.opcode.toWord :: instruction.operand.toList

theorem encode_append (code rest : List Instruction) :
    encode (code ++ rest) = encode code ++ encode rest :=
  List.flatMap_append

theorem length_encode_cons (instruction : Instruction) (rest : List Instruction) :
    (encode (instruction :: rest)).length =
      1 + instruction.operand.toList.length + (encode rest).length := by
  simp only [encode, List.flatMap_cons, List.cons_append, List.length_cons, List.length_append]
  omega

/-! ## The instructions that occur -/

/-- Whether straight-line statements use an opcode. -/
def isStraight (opcode : Opcode) : Bool :=
  opcode.opcodeClass.isOperator || [.pushi, .pushiEff, .fetchm, .sto, .swap, .sayOp, .saveReg, .pop,
    .exitOp].contains opcode

/-- An instruction with an operand if and only if its opcode takes one. -/
def WellFormed (instruction : Instruction) : Prop :=
  instruction.operand.isSome = instruction.opcode.takesOperand

theorem isStraight_unary (opcode : UnaryOpcode) : isStraight opcode = true := by
  simp [isStraight, opcode.2, OpcodeClass.isOperator]

theorem isStraight_binary (opcode : BinaryOpcode) : isStraight opcode = true := by
  simp [isStraight, opcode.2, OpcodeClass.isOperator]

theorem takesOperand_unary (opcode : UnaryOpcode) : opcode.1.takesOperand = false := by
  obtain ⟨opcode, h⟩ := opcode
  cases opcode <;> first | rfl | cases h

theorem takesOperand_binary (opcode : BinaryOpcode) : opcode.1.takesOperand = false := by
  obtain ⟨opcode, h⟩ := opcode
  cases opcode <;> first | rfl | cases h

/-- An instruction that straight-line statements use. -/
def StraightInstruction (instruction : Instruction) : Prop :=
  isStraight instruction.opcode = true ∧ WellFormed instruction

theorem Tree.straight_code (tree : Tree) : ∀ i ∈ tree.code, StraightInstruction i := by
  induction tree with
  | const value => simp [code, StraightInstruction, WellFormed]; decide
  | localVar index => simp [code, StraightInstruction, WellFormed]; decide
  | param offset => simp [code, StraightInstruction, WellFormed]; decide
  | global slot => simp [code, StraightInstruction, WellFormed]; decide
  | unary opcode operand ih =>
    intro i hi
    rcases List.mem_append.1 hi with hi | hi
    · exact ih i hi
    · rw [List.mem_singleton] at hi
      subst hi
      exact ⟨isStraight_unary opcode, (takesOperand_unary opcode).symm⟩
  | binary opcode left right ihLeft ihRight =>
    intro i hi
    rcases List.mem_append.1 hi with hi | hi
    · exact ihLeft i hi
    · rcases List.mem_append.1 hi with hi | hi
      · exact ihRight i hi
      · rw [List.mem_singleton] at hi
        subst hi
        exact ⟨isStraight_binary opcode, (takesOperand_binary opcode).symm⟩

theorem Place.straight_push (place : Place) : StraightInstruction place.push := by
  cases place <;> exact ⟨rfl, rfl⟩

theorem Stmt.straight_code (stmt : Stmt) : ∀ i ∈ stmt.code, StraightInstruction i := by
  have hstore : StraightInstruction ⟨.sto, none⟩ := ⟨rfl, rfl⟩
  have hswap : StraightInstruction ⟨.swap, none⟩ := ⟨rfl, rfl⟩
  cases stmt with
  | assign place value valueFirst =>
    have hvalue := value.straight_code
    have hplace := place.straight_push
    cases valueFirst <;> simp only [code, List.mem_append, List.mem_cons, List.not_mem_nil] <;> grind
  | say id =>
    simp [code, StraightInstruction, WellFormed]
    decide
  | «return» value =>
    have hvalue := value.straight_code
    have hsave : StraightInstruction ⟨.saveReg, none⟩ := ⟨rfl, rfl⟩
    have hpop : StraightInstruction ⟨.pop, none⟩ := ⟨rfl, rfl⟩
    simp only [code, List.mem_append, List.mem_cons, List.not_mem_nil]
    grind
  | exit =>
    simp [code, StraightInstruction, WellFormed]
    decide

theorem straight_bodyCode (body : List Stmt) : ∀ i ∈ bodyCode body, StraightInstruction i := by
  intro i hi
  obtain ⟨stmt, -, hi⟩ := List.mem_flatMap.1 hi
  exact stmt.straight_code i hi

/-- What holds of the prologue, of the statements and of the epilogue holds of the code of a function. -/
theorem forall_mem_functionCode {p : Instruction → Prop} {locals : UInt16} {body : List Stmt}
    (hprologue : ∀ i ∈ prologueCode locals, p i) (hbody : ∀ i ∈ bodyCode body, p i)
    (hepilogue : ∀ i ∈ epilogueCode, p i) : ∀ i ∈ functionCode locals body, p i := by
  intro i hi
  rcases List.mem_append.1 hi with hi | hi
  · exact hprologue i hi
  · rcases List.mem_append.1 hi with hi | hi
    · exact hbody i hi
    · exact hepilogue i hi

theorem wellFormed_functionCode (locals : UInt16) (body : List Stmt) :
    ∀ i ∈ functionCode locals body, WellFormed i := by
  refine forall_mem_functionCode ?_ (fun i hi => (straight_bodyCode body i hi).2) ?_
  · simp [prologueCode, WellFormed]
    decide
  · simp [epilogueCode, WellFormed]
    decide

/-- The code of a tree starts with a push. -/
theorem Tree.exists_code_cons (tree : Tree) : ∃ opcode operand rest,
    tree.code = ⟨opcode, operand⟩ :: rest ∧ (opcode = .pushi ∨ opcode = .pushiEff) := by
  induction tree with
  | const value => exact ⟨_, _, _, rfl, Or.inl rfl⟩
  | localVar index => exact ⟨_, _, _, rfl, Or.inr rfl⟩
  | param offset => exact ⟨_, _, _, rfl, Or.inr rfl⟩
  | global slot => exact ⟨_, _, _, rfl, Or.inl rfl⟩
  | unary opcode operand ih =>
    obtain ⟨first, operand', rest, h, hfirst⟩ := ih
    exact ⟨first, operand', rest ++ _, by rw [code, h]; rfl, hfirst⟩
  | binary opcode left right ihLeft ihRight =>
    obtain ⟨first, operand, rest, h, hfirst⟩ := ihLeft
    exact ⟨first, operand, rest ++ _, by rw [code, h]; rfl, hfirst⟩

end Parley.Source
