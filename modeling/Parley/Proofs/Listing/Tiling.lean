import Mathlib.Data.List.Forall2
import Parley.Proofs.Listing.Sweep
set_option autoImplicit false

/-!
# Two readers of one code

The sweep through a code segment and the graph of the segment are made by loops of their own: the one goes on by the
length of what it has decoded, or by all that is left behind a missing operand, the other by whether an operand was
found.  They stop at the same words, find the same there, and what they find tiles the code: no word is left out, and
none is taken twice.
-/

namespace Parley

/-! ## The same instruction -/

/-- What the decoder says of the word `word` at `pos` is the instruction with this opcode and operand.  A word that
stands for no opcode is a fault and has neither, an opcode cut off from its operand is a fault and has no operand. -/
inductive DecodesTo (code : CodeWords) (pos word : UInt16) :
    Except DecodeFault Instruction → Option Opcode → Option UInt16 → Prop
  | whole (instruction : Instruction) (hword : Opcode.ofWord? word = some instruction.opcode)
      (htakes : instruction.operand.isSome = instruction.opcode.takesOperand) :
      DecodesTo code pos word (.ok instruction) (some instruction.opcode) instruction.operand
  | unknown (hword : Opcode.ofWord? word = none) :
      DecodesTo code pos word (.error (.unknownOpcode pos word)) none none
  | cutOff (opcode : Opcode) (hword : Opcode.ofWord? word = some opcode) (htakes : opcode.takesOperand = true)
      (hlast : pos.toNat + 1 = code.size) :
      DecodesTo code pos word (.error (.missingOperand pos opcode)) (some opcode) none

/-- An entry of the sweep and an item of the graph stand at one position for one instruction. -/
def SweepEntry.Matches (code : CodeWords) (entry : SweepEntry) (item : Item) : Prop :=
  entry.pos = item.pos ∧ ∃ op, item.opcodeItem? = some op ∧
    DecodesTo code entry.pos op.word entry.decoded op.opcode op.operand

/-! ## Spans -/

/-- The word at which the sweep meets an entry, and the number of words by which it goes on from there. -/
def SweepEntry.span (code : CodeWords) (entry : SweepEntry) : Nat × Nat :=
  (entry.pos.toNat, sweepStride code entry.pos.toNat entry.decoded)

/-- The word at which an item stands, and the number of words that it stands for. -/
def Item.span (item : Item) : Nat × Nat := (item.pos.toNat, item.words.length)

/-- Spans that follow each other from `start` up to `stop`, without a gap and without a word in two of them. -/
inductive Tiles (stop : Nat) : Nat → List (Nat × Nat) → Prop
  | nil : Tiles stop stop []
  | cons {start count : Nat} {rest : List (Nat × Nat)} (hcount : 0 < count)
      (hrest : Tiles stop (start + count) rest) : Tiles stop start ((start, count) :: rest)

namespace Graph

variable {code : CodeWords} {index fuel : Nat}

/-! ## One word -/

/-- The entry of the sweep for the word `index`. -/
def entryAt (code : CodeWords) (index : Nat) : SweepEntry :=
  ⟨UInt16.ofNat index, Instruction.decode code (UInt16.ofNat index)⟩

theorem decodesTo_decodeItem {pos : UInt16} (h : pos.toNat < code.size) :
    DecodesTo code pos (code.getD pos.toNat 0) (Instruction.decode code pos) (decodeItem code pos).1
      (decodeItem code pos).2 := by
  have hword : code[pos.toNat]? = some (code.getD pos.toNat 0) := by
    rw [Array.getD_eq_getD_getElem?, Array.getElem?_eq_getElem h, Option.getD_some]
  unfold decodeItem Instruction.decode
  rw [hword]
  dsimp only
  cases hknown : Opcode.ofWord? (code.getD pos.toNat 0) with
  | none => exact .unknown hknown
  | some opcode =>
    dsimp only
    cases htakes : opcode.takesOperand with
    | false => exact .whole ⟨opcode, none⟩ hknown htakes.symm
    | true =>
      rw [if_pos rfl]
      cases hnext : code[pos.toNat + 1]? with
      | none =>
        have hend : code.size ≤ pos.toNat + 1 := Array.getElem?_eq_none_iff.1 hnext
        exact .cutOff opcode hknown htakes (Nat.le_antisymm h hend)
      | some operand => exact .whole ⟨opcode, some operand⟩ hknown htakes.symm

/-- Where the code has a position for each word, the position of a word is its number. -/
theorem toNat_of_lt_size (hindex : index < code.size) (hsize : code.size ≤ codeLimit) :
    (UInt16.ofNat index).toNat = index :=
  UInt16.toNat_ofNat_of_lt (Nat.lt_of_lt_of_le hindex hsize)

theorem matches_entryAt (hindex : index < code.size) (hsize : code.size ≤ codeLimit) :
    (entryAt code index).Matches code (itemAt code index) := by
  have hpos := toNat_of_lt_size hindex hsize
  have hlt : (UInt16.ofNat index).toNat < code.size := by rwa [hpos]
  have hdecodes := decodesTo_decodeItem hlt
  rw [hpos] at hdecodes
  exact ⟨rfl, _, rfl, hdecodes⟩

/-- However an instruction is found, as many words are passed over as its opcode and its operand have. -/
theorem sweepStride_of_decodesTo {pos word : UInt16} {decoded : Except DecodeFault Instruction}
    {opcode : Option Opcode} {operand : Option UInt16} (h : DecodesTo code pos word decoded opcode operand) :
    sweepStride code pos.toNat decoded = (word :: operand.toList).length := by
  cases h with
  | whole instruction hword htakes =>
    rw [sweepStride, Instruction.length, Opcode.operandCount, ← htakes]
    cases instruction.operand <;> rfl
  | unknown hword => rfl
  | cutOff opcode hword htakes hlast =>
    rw [sweepStride, ← hlast, Nat.add_sub_cancel_left]
    rfl

end Graph

open Parley.Graph in
/-- An entry of the sweep takes the words of the item that it matches. -/
theorem SweepEntry.Matches.span_eq {code : CodeWords} {entry : SweepEntry} {item : Item}
    (h : entry.Matches code item) : entry.span code = item.span := by
  obtain ⟨hpos, op, hop, hdecodes⟩ := h
  rw [SweepEntry.span, sweepStride_of_decodesTo hdecodes, Item.span, Item.words, hop, hpos]
  rfl

namespace Graph

variable {code : CodeWords} {index fuel : Nat}

/-! ## All words -/

theorem length_words_itemAt (code : CodeWords) (index : Nat) :
    (itemAt code index).words.length = strideAt code index := by
  rw [words_itemAt, strideAt]
  cases (decodeItem code (UInt16.ofNat index)).2 <;> rfl

/-- The sweep goes on from a word as the items do. -/
theorem sweepStride_eq (hindex : index < code.size) (hsize : code.size ≤ codeLimit) :
    sweepStride code index (Instruction.decode code (UInt16.ofNat index)) = strideAt code index := by
  have hspan := congrArg Prod.snd (matches_entryAt hindex hsize).span_eq
  rw [← length_words_itemAt]
  rwa [SweepEntry.span, entryAt, toNat_of_lt_size hindex hsize] at hspan

/-- The sweep meets the words at which items start. -/
theorem sweepFrom_eq_map (hsize : code.size ≤ codeLimit) (fuel index : Nat) :
    sweepFrom code fuel index = (startsFrom code fuel index).map (entryAt code) := by
  have hswept : sweptWords code = code.size := Nat.min_eq_left hsize
  induction fuel generalizing index with
  | zero => rfl
  | succ fuel ih =>
    rw [sweepFrom, startsFrom, hswept]
    split
    · rename_i hindex
      rw [List.map_cons, ← ih, ← sweepStride_eq hindex hsize]
      rfl
    · rfl

theorem sweep_eq_map (hsize : code.size ≤ codeLimit) : sweep code = (starts code).map (entryAt code) := by
  rw [sweep, sweepFrom_eq_map hsize, starts, sweptWords, Nat.min_eq_left hsize]

/-- An instruction ends where the code ends, or before. -/
theorem add_strideAt_le (hindex : index < code.size) (hsize : code.size ≤ codeLimit) :
    index + strideAt code index ≤ code.size := by
  rw [strideAt]
  cases hoperand : (decodeItem code (UInt16.ofNat index)).2 with
  | none => exact hindex
  | some operand =>
    have hnext := operand_decodeItem_eq_some hoperand
    rw [toNat_of_lt_size hindex hsize] at hnext
    exact (Array.getElem?_eq_some_iff.1 hnext).1

/-- The items from a word on tile the code from there on. -/
theorem tiles_startsFrom (hsize : code.size ≤ codeLimit) (hindex : index ≤ code.size)
    (hfuel : code.size ≤ index + fuel) :
    Tiles code.size index ((startsFrom code fuel index).map fun start => (itemAt code start).span) := by
  have hswept : sweptWords code = code.size := Nat.min_eq_left hsize
  induction fuel generalizing index with
  | zero =>
    rw [Nat.le_antisymm hindex hfuel]
    exact .nil
  | succ fuel ih =>
    rw [startsFrom, hswept]
    split
    · rename_i hlt
      have hspan : (itemAt code index).span = (index, strideAt code index) := by
        rw [Item.span, length_words_itemAt, pos_itemAt, toNat_of_lt_size hlt hsize]
      have hpositive := strideAt_pos code index
      rw [List.map_cons, hspan]
      exact .cons hpositive (ih (add_strideAt_le hlt hsize) (by omega))
    · rename_i hge
      rw [Nat.le_antisymm hindex (Nat.not_lt.1 hge)]
      exact .nil

/-- In code that has a position for each word the sweep and the graph find the same instructions one behind the other.
What they take of the code tiles it, and together the items have the words of the code. -/
theorem sweep_matches_ofCode (hsize : code.size ≤ codeLimit) :
    List.Forall₂ (SweepEntry.Matches code) (sweep code) (ofCode code).listing ∧
      (sweep code).map (SweepEntry.span code) = (ofCode code).listing.map Item.span ∧
      Tiles code.size 0 ((ofCode code).listing.map Item.span) ∧
      (ofCode code).listing.flatMap Item.words = code.toList := by
  have hmatches : List.Forall₂ (SweepEntry.Matches code) (sweep code) (ofCode code).listing := by
    rw [sweep_eq_map hsize, listing_ofCode, codeItems_eq_map, List.forall₂_map_left_iff,
      List.forall₂_map_right_iff, List.forall₂_same]
    intro start hstart
    exact matches_entryAt (lt_of_mem_starts hstart).1 hsize
  have hfuel : code.size ≤ 0 + sweptWords code := by
    rw [Nat.zero_add]
    exact Nat.le_min.2 ⟨Nat.le_refl _, hsize⟩
  refine ⟨hmatches, ?_, ?_, ?_⟩
  · have hspans := hmatches.imp fun entry item h => h.span_eq
    rwa [← List.forall₂_map_right_iff (f := Item.span), ← List.forall₂_map_left_iff (f := SweepEntry.span code),
      List.forall₂_eq_eq_eq] at hspans
  · rw [listing_ofCode, codeItems_eq_map, List.map_map]
    exact tiles_startsFrom hsize (Nat.zero_le _) hfuel
  · rw [listing_ofCode, words_codeItems hsize]

/-- Code in which two instructions take an operand, one word stands for no opcode, and the last instruction is cut off
from its operand. -/
def cutOffCode : CodeWords := #[22, 1, 0xff, 23, 0xffff, 21, 15]

theorem sweep_matches_ofCode_cutOff :
    cutOffCode.size ≤ codeLimit ∧
      (sweep cutOffCode).map (SweepEntry.span cutOffCode) = [(0, 2), (2, 1), (3, 2), (5, 1), (6, 1)] ∧
      List.Forall₂ (SweepEntry.Matches cutOffCode) (sweep cutOffCode) (ofCode cutOffCode).listing ∧
      (sweep cutOffCode).map (SweepEntry.span cutOffCode) = (ofCode cutOffCode).listing.map Item.span ∧
      Tiles cutOffCode.size 0 ((ofCode cutOffCode).listing.map Item.span) ∧
      (ofCode cutOffCode).listing.flatMap Item.words = cutOffCode.toList :=
  ⟨by decide, by decide, sweep_matches_ofCode (by decide)⟩

end Graph

end Parley
