import Parley.Code.Instruction
set_option autoImplicit false

/-!
# Instructions in code

An instruction is read back from where its words stand, whatever stands around them.
-/

namespace Parley

namespace Instruction

/-- The words of an instruction. -/
def words (instruction : Instruction) : List UInt16 :=
  instruction.opcode.toWord :: instruction.operand.toList

/-- The decoder reads an instruction from its words. -/
theorem decode_words {front back : List UInt16} {instruction : Instruction} {pos : UInt16}
    (htakes : instruction.operand.isSome = instruction.opcode.takesOperand)
    (hpos : pos.toNat = front.length) :
    decode (front ++ instruction.words ++ back).toArray pos = .ok instruction := by
  obtain ⟨opcode, operand⟩ := instruction
  have hword : (front ++ words ⟨opcode, operand⟩ ++ back).toArray[pos.toNat]? = some opcode.toWord := by
    rw [hpos]
    simp [words]
  have hbehind : (front ++ words ⟨opcode, operand⟩ ++ back).toArray[pos.toNat + 1]? =
      (operand.toList ++ back).head? := by
    rw [hpos, List.getElem?_toArray, List.append_assoc, List.getElem?_append_right (Nat.le_add_right _ 1),
      Nat.add_sub_cancel_left, words, List.cons_append, List.getElem?_cons_succ, List.head?_eq_getElem?]
  unfold decode
  rw [hword, hbehind]
  simp only [Opcode.ofWord?_toWord]
  cases operand with
  | none =>
    rw [← htakes]
    rfl
  | some value =>
    rw [← htakes]
    rfl

end Instruction

end Parley
