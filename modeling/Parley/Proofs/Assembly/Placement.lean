import Parley.Proofs.Assembly.Draft
import Parley.Proofs.Code.Instruction
set_option autoImplicit false

/-!
# The second pass of the assembler

The words of a statement stand in the code where the first pass has placed it.  So the code has as many words
as its lines together, each instruction is decoded at the position of its line, and a jump or branch to a
label leads to the first word behind the definition of the label, wherever in the text that is.
-/

namespace Parley.Assembly

open Fallible

variable {labels : List (String × UInt16)} {item : Placed} {placed before behind : List Placed}
  {words own : List UInt16}

/-! ## The words of statements -/

theorem encode_word {value : UInt16} (hstatement : item.statement = .word value)
    (h : item.encode labels = .ok own) : own = [value] := by
  unfold Placed.encode at h
  rw [hstatement] at h
  cases h
  rfl

/-- The operand word of an instruction at `pos`, none if there is none or it is an undefined label. -/
def operandWord? (labels : List (String × UInt16)) (pos : UInt16) (opcode : Opcode) :
    Option Operand → Option UInt16
  | none => none
  | some (.value value) => some value
  | some (.label name) => (labels.lookup name).map (labelOperand opcode pos)

theorem encode_instruction {opcode : Opcode} {operand : Option Operand}
    (hstatement : item.statement = .instruction opcode operand) (h : item.encode labels = .ok own) :
    (operandWord? labels item.pos opcode operand).isSome = operand.isSome ∧
      own = Instruction.words ⟨opcode, operandWord? labels item.pos opcode operand⟩ := by
  unfold Placed.encode at h
  rw [hstatement] at h
  match operand with
  | none =>
    cases h
    exact ⟨rfl, rfl⟩
  | some (.value value) =>
    cases h
    exact ⟨rfl, rfl⟩
  | some (.label name) =>
    dsimp only at h
    split at h
    · rename_i target hlookup
      cases h
      rw [operandWord?, hlookup]
      exact ⟨rfl, rfl⟩
    · cases h

theorem length_words {instruction : Instruction}
    (htakes : instruction.operand.isSome = instruction.opcode.takesOperand) :
    instruction.words.length = instruction.opcode.operandCount + 1 := by
  obtain ⟨opcode, operand⟩ := instruction
  unfold Instruction.words Opcode.operandCount
  rw [← htakes]
  cases operand <;> rfl

theorem length_encode (hwell : item.statement.WellFormed) (h : item.encode labels = .ok own) :
    own.length = item.statement.size := by
  cases hstatement : item.statement with
  | word value =>
    rw [encode_word hstatement h]
    rfl
  | instruction opcode operand =>
    rw [hstatement] at hwell
    obtain ⟨hsome, rfl⟩ := encode_instruction hstatement h
    exact length_words (hsome.trans hwell)

theorem encodeAll_cons (h : encodeAll labels (item :: placed) = .ok words) :
    ∃ own others, item.encode labels = .ok own ∧ encodeAll labels placed = .ok others ∧
      words = own ++ others := by
  obtain ⟨own, hown, h⟩ := except_bind_eq_ok.1 h
  obtain ⟨others, hothers, h⟩ := except_bind_eq_ok.1 h
  cases h
  exact ⟨own, others, hown, hothers, rfl⟩

theorem length_encodeAll (hwell : ∀ item ∈ placed, item.statement.WellFormed)
    (h : encodeAll labels placed = .ok words) : words.length = wordCount placed := by
  induction placed generalizing words with
  | nil =>
    cases h
    rfl
  | cons item rest ih =>
    obtain ⟨hfirst, hrest⟩ := List.forall_mem_cons.1 hwell
    obtain ⟨own, others, hown, hothers, rfl⟩ := encodeAll_cons h
    rw [List.length_append, length_encode hfirst hown, ih hrest hothers]
    rfl

/-- The words of a statement stand behind those of the statements before it. -/
theorem encodeAll_split (hwell : ∀ item ∈ before, item.statement.WellFormed)
    (h : encodeAll labels (before ++ item :: behind) = .ok words) :
    ∃ front own back, item.encode labels = .ok own ∧ front.length = wordCount before ∧
      words = front ++ own ++ back := by
  induction before generalizing words with
  | nil =>
    obtain ⟨own, others, hown, -, rfl⟩ := encodeAll_cons h
    exact ⟨[], own, others, hown, rfl, rfl⟩
  | cons first rest ih =>
    obtain ⟨hfirst, hrest⟩ := List.forall_mem_cons.1 hwell
    obtain ⟨words₁, others, hwords₁, hothers, rfl⟩ := encodeAll_cons h
    obtain ⟨front, own, back, hown, hlength, rfl⟩ := ih hrest hothers
    refine ⟨words₁ ++ front, own, back, hown, ?_, ?_⟩
    · rw [List.length_append, length_encode hfirst hwords₁, hlength]
      rfl
    · simp only [List.append_assoc]

/-! ## Jumps to labels -/

/-- The opcodes of jumps, branches and local calls. -/
def jumpOpcodes : List Opcode := [.jmp, .call, .beq, .bne, .bra]

/-- A jump, branch or call with the operand for a label leads to the label. -/
theorem jumpTarget?_labelOperand {opcode : Opcode} (hjump : opcode ∈ jumpOpcodes) (pos target : UInt16) :
    Instruction.jumpTarget? ⟨opcode, some (labelOperand opcode pos target)⟩ pos = some target := by
  have hback : target - (pos + 1) + pos + 1 = target := by
    rw [UInt16.add_assoc, UInt16.sub_add_cancel]
  simp only [jumpOpcodes, List.mem_cons, List.not_mem_nil, or_false] at hjump
  rcases hjump with rfl | rfl | rfl | rfl | rfl
  · rfl
  · rfl
  · exact congrArg some hback
  · exact congrArg some hback
  · exact congrArg some hback

/-- Any other instruction has the position of the label for its operand. -/
theorem labelOperand_of_not_jump {opcode : Opcode} (hjump : opcode ∉ jumpOpcodes) (pos target : UInt16) :
    labelOperand opcode pos target = target := by
  unfold labelOperand
  refine if_neg fun hrelative => hjump ?_
  revert hrelative
  cases opcode <;> decide

/-! ## Positions in the text -/

/-- The position of the first word that a text puts into the code from a line on, or the end of the code if
there is none. -/
def firstWordFrom (texts : List (List Char)) (index : Nat) : Nat :=
  startOf texts (index + (texts.drop index).findIdx fun text => (statementOf? text).isSome)

/-- Lines without statements move nothing. -/
theorem sum_lineSize_take_findIdx (texts : List (List Char)) :
    ((texts.take (texts.findIdx fun text => (statementOf? text).isSome)).map lineSize).sum = 0 := by
  induction texts with
  | nil => rfl
  | cons text rest ih =>
    rw [List.findIdx_cons]
    cases hstatement : statementOf? text with
    | some statement => rfl
    | none =>
      have hsize : lineSize text = 0 := by rw [lineSize, hstatement]
      simpa [hsize] using ih

theorem firstWordFrom_eq (texts : List (List Char)) (index : Nat) :
    firstWordFrom texts index = startOf texts index := by
  unfold firstWordFrom startOf
  rw [List.take_add, List.map_append, List.sum_append, sum_lineSize_take_findIdx, Nat.add_zero]

/-- A label is defined in a line and in no other. -/
def DefinedOnce (texts : List (List Char)) (index : Nat) (name : String) : Prop :=
  Defines texts index name ∧ ∀ other, Defines texts other name → other = index

/-- An instruction at a position has the operand that the text gives it.  A jump to a label leads to the first
word behind its definition; any other instruction with a label has that position for its operand. -/
def Carries (texts : List (List Char)) (pos : UInt16) (instruction : Instruction) : Option Operand → Prop
  | none => instruction.operand = none
  | some (.value value) => instruction.operand = some value
  | some (.label name) => ∃ index, DefinedOnce texts index name ∧
    if instruction.opcode ∈ jumpOpcodes then
      instruction.jumpTarget? pos = some (UInt16.ofNat (firstWordFrom texts index))
    else instruction.operand = some (UInt16.ofNat (firstWordFrom texts index))

/-- A statement stands at a position of the code. -/
def Stands (texts : List (List Char)) (code : CodeWords) (start : Nat) : Statement → Prop
  | .word value => code[start]? = some value
  | .instruction opcode operand => ∃ instruction,
    Instruction.decode code (UInt16.ofNat start) = .ok instruction ∧ instruction.opcode = opcode ∧
      Carries texts (UInt16.ofNat start) instruction operand

variable {texts : List (List Char)} {draft : Draft}

theorem carries_operandWord? (hdraft : Drafted texts draft) {pos : UInt16} {opcode : Opcode}
    {operand : Option Operand}
    (hsome : (operandWord? draft.labels pos opcode operand).isSome = operand.isSome) :
    Carries texts pos ⟨opcode, operandWord? draft.labels pos opcode operand⟩ operand := by
  match operand with
  | none => rfl
  | some (.value value) => rfl
  | some (.label name) =>
    obtain ⟨word, hword⟩ := Option.isSome_iff_exists.1 hsome
    obtain ⟨target, hlookup, rfl⟩ := Option.map_eq_some_iff.1 hword
    obtain ⟨index, hdefines, rfl⟩ := (hdraft.labels name target).1 hlookup
    refine ⟨index, ⟨hdefines, fun other hother => hdraft.unique name other index hother hdefines⟩, ?_⟩
    rw [firstWordFrom_eq, hword]
    split
    · rename_i hjump
      exact jumpTarget?_labelOperand hjump _ _
    · rename_i hjump
      exact congrArg some (labelOperand_of_not_jump hjump _ _)

/-- The words of a statement stand where its line starts. -/
theorem stands_of_encodeAll (hdraft : Drafted texts draft)
    (hwords : encodeAll draft.labels draft.placed.reverse = .ok words) (hsize : words.length ≤ 65535)
    {index : Nat} {text : List Char} {statement : Statement} (htext : texts[index]? = some text)
    (hstatement : statementOf? text = some statement) :
    Stands texts words.toArray (startOf texts index) statement := by
  obtain ⟨later, line, earlier, hsplit, hstart⟩ := hdraft.placed index text statement htext hstatement
  have hwell := hdraft.wellFormed
  rw [hsplit] at hwell
  obtain ⟨-, hwellItem, hwellEarlier⟩ := by
    simpa only [List.forall_mem_append, List.forall_mem_cons] using hwell
  rw [hsplit, List.reverse_append, List.reverse_cons, List.append_assoc, List.singleton_append] at hwords
  obtain ⟨front, own, back, hown, hlength, rfl⟩ :=
    encodeAll_split (fun item hitem => hwellEarlier item (List.mem_reverse.1 hitem)) hwords
  have hfront : front.length = startOf texts index := by
    rw [hlength, ← hstart, wordCount, wordCount, List.map_reverse, List.sum_reverse]
  cases statement with
  | word value =>
    rw [encode_word rfl hown, ← hfront]
    simp [Stands]
  | instruction opcode operand =>
    obtain ⟨hsome, rfl⟩ := encode_instruction rfl hown
    have hpos : (UInt16.ofNat (startOf texts index)).toNat = front.length := by
      rw [List.length_append, List.length_append] at hsize
      rw [← hfront]
      exact Nat.mod_eq_of_lt (by omega)
    exact ⟨_, Instruction.decode_words (hsome.trans hwellItem) hpos, rfl, carries_operandWord? hdraft hsome⟩

end Parley.Assembly

namespace Parley

open Assembly Fallible

/-- A loop that is left to the end of the code. -/
def loopSource : String :=
  "start: ; once around\n  PUSHI 5\n  BEQ done\n.word 7 // skipped\n\n  BRA start\ndone:\n"

end Parley
