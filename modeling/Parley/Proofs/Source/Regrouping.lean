import Parley.Proofs.Source.Reader
set_option autoImplicit false

/-!
# Operators that reassociate

A reader that groups to the left takes the first of two equally tight operators first, whatever the
parentheses were that a printer left out.  This is right for a few pairs of operators, and for no others.
-/

namespace Parley.Source

open Machine (evalBinary truth)

/-! ## Pairs of operators -/

/-- It does not matter which of two operators is taken first, faults included. -/
def Reassociates (outer inner : Opcode) : Prop :=
  ∀ x y z, (evalBinary inner y z).bind (evalBinary outer x) =
    (evalBinary outer x y).bind fun value => evalBinary inner value z

/-- The pairs of an operator and an equally tight one in its right operand that reassociate. -/
def joinable (outer inner : Opcode) : Bool :=
  [(.add, .add), (.add, .sub), (.mul, .mul), (.and, .and), (.or, .or)].contains (outer, inner)

theorem truth_ne_zero (b : Bool) : decide (truth b ≠ 0) = b := by
  cases b <;> decide

theorem reassociates_of_joinable {outer inner : Opcode} (h : joinable outer inner = true) :
    Reassociates outer inner := by
  simp only [joinable, List.contains_eq_mem, decide_eq_true_eq, List.mem_cons, List.not_mem_nil, or_false,
    Prod.mk.injEq] at h
  intro x y z
  rcases h with ⟨rfl, rfl⟩ | ⟨rfl, rfl⟩ | ⟨rfl, rfl⟩ | ⟨rfl, rfl⟩ | ⟨rfl, rfl⟩
  · exact congrArg some (UInt16.add_assoc x y z).symm
  · refine congrArg some ?_
    rw [UInt16.sub_eq_add_neg, UInt16.sub_eq_add_neg, UInt16.add_assoc]
  · exact congrArg some (UInt16.mul_assoc x y z).symm
  · simp only [evalBinary, Option.bind_some, truth_ne_zero, Bool.and_assoc]
  · simp only [evalBinary, Option.bind_some, truth_ne_zero, Bool.or_assoc]

/-- The binary operators. -/
def binaryOpcodes : List Opcode :=
  [.add, .mul, .sub, .div, .mod, .or, .and, .testGt, .testGe, .testLt, .testLe, .testEq, .testNe]

theorem mem_binaryOpcodes (opcode : BinaryOpcode) : opcode.1 ∈ binaryOpcodes := by
  obtain ⟨opcode, h⟩ := opcode
  change opcode ∈ _
  cases opcode <;> first | decide | cases h

/-- Two equally tight operators that are not among those pairs take some words to different values. -/
theorem exists_misgrouped {outer inner : BinaryOpcode}
    (htie : outer.1.precedence = inner.1.precedence) (h : joinable outer inner = false) :
    ∃ x y z value, (evalBinary inner y z).bind (evalBinary outer x) = some value ∧
      ((evalBinary outer x y).bind fun left => evalBinary inner left z) ≠ some value := by
  have hsmall : ∀ outer ∈ binaryOpcodes, ∀ inner ∈ binaryOpcodes,
      outer.precedence = inner.precedence → joinable outer inner = false →
      ∃ x ∈ ([0, 1, 2, 3] : List UInt16), ∃ y ∈ ([0, 1, 2, 3] : List UInt16),
        ∃ z ∈ ([0, 1, 2, 3] : List UInt16),
          ((evalBinary inner y z).bind (evalBinary outer x)).isSome = true ∧
          ((evalBinary outer x y).bind fun left => evalBinary inner left z) ≠
            (evalBinary inner y z).bind (evalBinary outer x) := by decide +kernel
  obtain ⟨x, -, y, -, z, -, hvalue, hne⟩ :=
    hsmall _ (mem_binaryOpcodes outer) _ (mem_binaryOpcodes inner) htie h
  obtain ⟨value, hvalue⟩ := Option.isSome_iff_exists.1 hvalue
  rw [hvalue] at hne
  exact ⟨x, y, z, value, hvalue, hne⟩

/-- Equally tight operators reassociate if and only if they are one of those pairs. -/
theorem reassociates_iff {outer inner : BinaryOpcode}
    (htie : outer.1.precedence = inner.1.precedence) :
    Reassociates outer inner ↔ joinable outer inner = true := by
  refine ⟨fun h => ?_, reassociates_of_joinable⟩
  cases hjoinable : joinable outer inner with
  | true => rfl
  | false =>
    obtain ⟨x, y, z, value, hvalue, hne⟩ := exists_misgrouped htie hjoinable
    exact absurd ((h x y z).symm.trans hvalue) hne

/-! ## Grouping to the left -/

namespace Written

/-- What an expression means by its parentheses. -/
def plain : Written → Reading
  | number value => .number value
  | name text => .name text
  | unary opcode operand => .unary opcode operand.plain
  | binary opcode left right => .binary opcode left.plain right.plain
  | group inner => inner.plain

/-- The operators of an expression that tie with an operator to its left reassociate with it. -/
def joins (outer : BinaryOpcode) : Written → Bool
  | binary opcode first _ =>
    if outer.1.precedence = opcode.1.precedence then joinable outer opcode && first.joins outer
    else true
  | _ => true

/-- Where an operator ties with one in its right operand, they reassociate. -/
def regular : Written → Bool
  | number _ | name _ => true
  | unary _ operand => operand.regular
  | binary opcode left right => left.regular && (right.regular && right.joins opcode)
  | group inner => inner.regular

theorem value?_close {words : String → UInt16} {left : Option (Reading × BinaryOpcode)}
    {right right' : Reading} (h : right.value? words = right'.value? words) :
    (close left right).value? words = (close left right').value? words := by
  cases left with
  | none => exact h
  | some entry => simp only [close, Reading.value?, h]

/-- Two operators that reassociate may take three readings in either order. -/
theorem value?_binary_binary {words : String → UInt16} {outer inner : BinaryOpcode}
    (h : Reassociates outer inner) (first second third : Reading) :
    (Reading.binary inner (.binary outer first second) third).value? words =
      (Reading.binary outer first (.binary inner second third)).value? words := by
  simp only [Reading.value?]
  cases first.value? words with
  | none => rfl
  | some x =>
    cases second.value? words with
    | none => rfl
    | some y =>
      cases hz : third.value? words with
      | none => cases hxy : evalBinary outer x y <;> simp [hxy]
      | some z => simpa using (h x y z).symm

/-- If all operators that tie reassociate, what is read has the value that the parentheses say. -/
theorem value?_readBehind (words : String → UInt16) {w : Written} (hregular : w.regular = true)
    {left : Option (Reading × BinaryOpcode)} (hjoins : ∀ entry ∈ left, w.joins entry.2 = true) :
    (w.readBehind left).value? words = (close left w.plain).value? words := by
  have hnone (w : Written) : ∀ entry ∈ (none : Option (Reading × BinaryOpcode)),
      w.joins entry.2 = true := fun entry hentry => by cases hentry
  induction w generalizing left with
  | number value => rfl
  | name text => rfl
  | unary opcode operand ih =>
    have hoperand : (operand.readBehind none).value? words = operand.plain.value? words :=
      ih hregular (hnone operand)
    refine value?_close ?_
    rw [plain, Reading.value?, Reading.value?, hoperand]
  | group inner ih => exact value?_close (ih hregular (hnone inner))
  | binary opcode first second ihFirst ihSecond =>
    simp only [regular, Bool.and_eq_true] at hregular
    obtain ⟨hfirst, hsecond, hright⟩ := hregular
    have hbehind (operand : Reading) :
        (second.readBehind (some (operand, opcode))).value? words =
          (Reading.binary opcode operand second.plain).value? words :=
      ihSecond hsecond fun entry hentry => by
        cases hentry
        exact hright
    cases hties : ties left opcode with
    | true =>
      -- The operator to the left is taken first here, and last by the parentheses.
      cases left with
      | none => cases hties
      | some entry =>
        have htie : entry.2.1.precedence = opcode.1.precedence := by simpa [ties] using hties
        have hpair := hjoins entry rfl
        rw [joins, if_pos htie, Bool.and_eq_true] at hpair
        have hoperand : (first.readBehind (some entry)).value? words =
            (Reading.binary entry.2 entry.1 first.plain).value? words :=
          ihFirst hfirst fun other hother => by
            cases hother
            exact hpair.2
        calc ((binary opcode first second).readBehind (some entry)).value? words
            = (Reading.binary opcode (first.readBehind (some entry)) second.plain).value? words := by
              rw [readBehind, if_pos hties, hbehind]
          _ = (Reading.binary opcode (.binary entry.2 entry.1 first.plain) second.plain).value?
                words := by
              rw [Reading.value?, hoperand, ← Reading.value?]
          _ = (Reading.binary entry.2 entry.1 (.binary opcode first.plain second.plain)).value?
                words :=
              value?_binary_binary (reassociates_of_joinable hpair.1) _ _ _
    | false =>
      have hoperand : (first.readBehind none).value? words = first.plain.value? words :=
        ihFirst hfirst (hnone first)
      rw [readBehind, hties]
      refine value?_close ?_
      rw [hbehind, plain, Reading.value?, hoperand, ← Reading.value?]

end Written

end Parley.Source
