import Parley.Proofs.Code.Instruction
import Parley.Proofs.Listing.Sweep
import Parley.Proofs.Source.Analysis
set_option autoImplicit false

/-!
# The listing of straight-line code

The words of a well-formed code are listed as its instructions, one item each.
-/

namespace Parley.Source

/-- The decoder reads an instruction back. -/
theorem decode_encode {done : List Instruction} {instruction : Instruction}
    (hwell : WellFormed instruction) {pos : UInt16} (hpos : pos.toNat = (encode done).length)
    (rest : List Instruction) :
    Instruction.decode (encode (done ++ instruction :: rest)).toArray pos = .ok instruction := by
  have hwords : encode (done ++ instruction :: rest) =
      encode done ++ instruction.words ++ encode rest := by
    rw [encode_append, List.append_assoc]
    rfl
  rw [hwords]
  exact Instruction.decode_words hwell hpos

/-- The items of a code, from an instruction on. -/
theorem itemsFrom_encode (done : List Instruction) {rest : List Instruction}
    (hwell : ∀ instruction ∈ rest, WellFormed instruction)
    (hsize : (encode (done ++ rest)).length ≤ 65535) (fuel : Nat)
    (hfuel : (encode rest).length ≤ fuel) :
    (Graph.itemsFrom (encode (done ++ rest)).toArray fuel (encode done).length).map Item.face? =
      rest.map fun instruction => some (false, rawKind instruction) := by
  -- Each step takes an instruction from `rest` to `done`, and all words stay where they are.
  induction rest generalizing done fuel with
  | nil =>
    have hend : ¬ ((encode done).length < (encode (done ++ [])).toArray.size ∧
        (encode done).length < Graph.codeLimit) := by
      simp
    cases fuel with
    | zero => rfl
    | succ fuel => rw [Graph.itemsFrom, dif_neg hend]; rfl
  | cons instruction rest ih =>
    have hlength := length_encode_cons instruction rest
    have htotal : (encode (done ++ instruction :: rest)).length =
        (encode done).length + (encode (instruction :: rest)).length := by
      rw [encode_append, List.length_append]
    obtain ⟨fuel, rfl⟩ : ∃ more, fuel = more + 1 := ⟨fuel - 1, by omega⟩
    have hinside : (encode done).length < (encode (done ++ instruction :: rest)).toArray.size ∧
        (encode done).length < Graph.codeLimit := by
      rw [List.size_toArray]
      have hlimit : Graph.codeLimit = 65536 := rfl
      omega
    have hpos : (UInt16.ofNat (encode done).length).toNat = (encode done).length :=
      UInt16.toNat_ofNat_of_lt (by
        have hword : UInt16.size = 65536 := rfl
        omega)
    have hdecode := decode_encode (hwell instruction List.mem_cons_self) hpos rest
    have hitem : Graph.decodeItem (encode (done ++ instruction :: rest)).toArray
        (UInt16.ofNat (encode done).length) = (some instruction.opcode, instruction.operand) := by
      rw [Graph.decodeItem, hdecode]
    have hword (h : (encode done).length < (encode (done ++ instruction :: rest)).toArray.size) :
        (encode (done ++ instruction :: rest)).toArray[(encode done).length] =
          instruction.opcode.toWord := by
      simp [encode]
    have hstride : (encode done).length + (if instruction.operand.isSome then 2 else 1) =
        (encode (done ++ [instruction])).length := by
      rw [encode_append, List.length_append, length_encode_cons]
      cases instruction.operand <;> simp [encode]
    have hsame : done ++ instruction :: rest = done ++ [instruction] ++ rest := by simp
    have htail := ih (done ++ [instruction])
      (fun i hi => hwell i (List.mem_cons_of_mem _ hi)) (by rwa [← hsame]) fuel (by omega)
    rw [← hsame] at htail
    rw [Graph.itemsFrom, dif_pos hinside]
    simp only [hitem, hword, List.map_cons]
    rw [hstride, htail]
    rfl

/-- The listing of a code shows its instructions. -/
theorem raws_ofCode {code : List Instruction} (hwell : ∀ instruction ∈ code, WellFormed instruction)
    (hsize : (encode code).length ≤ 65535) :
    Raws (Graph.ofCode (encode code).toArray) (Graph.ofCode (encode code).toArray).order code := by
  have hitems := itemsFrom_encode [] hwell hsize _ (Nat.le_refl _)
  have hlimit : min (encode code).toArray.size Graph.codeLimit = (encode code).length := by
    rw [List.size_toArray]
    exact Nat.min_eq_left (Nat.le_trans hsize (by decide))
  have hcode : (Graph.codeItems (encode code).toArray).map Item.face? =
      code.map fun instruction => some (false, rawKind instruction) := by
    rw [Graph.codeItems, hlimit]
    exact hitems
  rw [Raws, ← hcode, Graph.ofCode, Graph.order_ofItems]
  apply List.ext_getElem
  · simp
  · intro i hi _
    rw [List.length_map, List.length_range] at hi
    simp [Graph.face?, Graph.item_ofItems, hi]

end Parley.Source
