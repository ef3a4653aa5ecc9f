import Parley.Proofs.Machine.Segment
set_option autoImplicit false

/-!
# Postfix code evaluates its term

The post-order code of a term pushes the value of the term and leaves alone everything up to the old stack
pointer, or it faults at the first division, in the order of the code, whose divisor is zero.
-/

namespace Parley.Machine

open Fallible Source

/-! ## What operators compute -/

/-- One where something holds and zero where it does not. -/
def indicator (p : Prop) [Decidable p] : Nat := if p then 1 else 0

/-- The number that a binary operator computes of two words.  Arithmetic wraps at 16 bits, and nothing is
divided by zero. -/
def binaryMeaning (opcode : Opcode) (x y : Nat) : Option Nat :=
  match opcode with
  | .add => some ((x + y) % UInt16.size)
  | .sub => some ((x + (UInt16.size - y)) % UInt16.size)
  | .mul => some (x * y % UInt16.size)
  | .div => if y = 0 then none else some (x / y)
  | .mod => if y = 0 then none else some (x % y)
  | .or => some (indicator (x ≠ 0 ∨ y ≠ 0))
  | .and => some (indicator (x ≠ 0 ∧ y ≠ 0))
  | .testGt => some (indicator (x > y))
  | .testGe => some (indicator (x ≥ y))
  | .testLt => some (indicator (x < y))
  | .testLe => some (indicator (x ≤ y))
  | .testEq => some (indicator (x = y))
  | .testNe => some (indicator (x ≠ y))
  | _ => none

/-- The number that a unary operator computes of a word. -/
def unaryMeaning (opcode : Opcode) (x : Nat) : Nat :=
  match opcode with
  | .not => indicator (x = 0)
  | _ => (UInt16.size - x) % UInt16.size

/-- Whether an opcode divides by its right operand. -/
def divides : Opcode → Bool
  | .div | .mod => true
  | _ => false

theorem truth_eq (p : Prop) [Decidable p] : truth (decide p) = UInt16.ofNat (indicator p) := by
  by_cases h : p <;> simp [truth, indicator, h]

theorem eq_ofNat_of_toNat {word : UInt16} {number : Nat} (h : word.toNat = number % UInt16.size) :
    word = UInt16.ofNat number := by
  rw [← UInt16.toNat_inj, UInt16.toNat_ofNat']
  exact h

theorem eq_zero_iff_toNat {word : UInt16} : word = 0 ↔ word.toNat = 0 := by
  rw [← UInt16.toNat_inj]
  rfl

/-- The machine computes what an operator means. -/
theorem evalBinary_eq (opcode : Opcode) (x y : UInt16) :
    evalBinary opcode x y = (binaryMeaning opcode x.toNat y.toNat).map UInt16.ofNat := by
  have hless {number : Nat} (hle : number ≤ x.toNat) : number = number % UInt16.size :=
    (Nat.mod_eq_of_lt (Nat.lt_of_le_of_lt hle x.toNat_lt_size)).symm
  cases opcode with
  | add => exact congrArg some (eq_ofNat_of_toNat (by rw [UInt16.toNat_add, Nat.mod_mod]))
  | sub => exact congrArg some (eq_ofNat_of_toNat (by rw [UInt16.toNat_sub, Nat.mod_mod, Nat.add_comm]))
  | mul => exact congrArg some (eq_ofNat_of_toNat (by rw [UInt16.toNat_mul, Nat.mod_mod]))
  | div =>
    simp only [evalBinary, binaryMeaning, eq_zero_iff_toNat]
    split
    · rfl
    · exact congrArg some (eq_ofNat_of_toNat ((UInt16.toNat_div x y).trans (hless (Nat.div_le_self _ _))))
  | mod =>
    simp only [evalBinary, binaryMeaning, eq_zero_iff_toNat]
    split
    · rfl
    · exact congrArg some (eq_ofNat_of_toNat ((UInt16.toNat_mod x y).trans (hless (Nat.mod_le _ _))))
  | _ =>
    first
      | rfl
      | simp [evalBinary, binaryMeaning, ← truth_eq, ← UInt16.toNat_inj, UInt16.lt_iff_toNat_lt,
          UInt16.le_iff_toNat_le]

theorem evalUnary_eq (opcode : Opcode) (x : UInt16) :
    evalUnary opcode x = UInt16.ofNat (unaryMeaning opcode x.toNat) := by
  have hneg : -x = UInt16.ofNat ((UInt16.size - x.toNat) % UInt16.size) :=
    eq_ofNat_of_toNat (by rw [UInt16.toNat_neg, Nat.mod_mod])
  have hnot : truth (x = 0) = UInt16.ofNat (indicator (x.toNat = 0)) := by
    simp only [eq_zero_iff_toNat, ← truth_eq]
  cases opcode <;> first | exact hnot | exact hneg

/-- Only a division has no value, by zero. -/
theorem evalBinary_eq_none_iff (opcode : BinaryOpcode) (x y : UInt16) :
    evalBinary opcode x y = none ↔ divides opcode = true ∧ y = 0 := by
  obtain ⟨opcode, hclass⟩ := opcode
  cases opcode <;> first | (cases hclass; done) | simp [evalBinary, divides]

/-! ## Terms -/

/-- What postfix code computes: constants, addresses relative to the base pointer, the words at addresses,
and operators. -/
inductive Term where
  | const (value : UInt16)
  | frame (offset : UInt16)
  | load (address : Term)
  | unary (opcode : UnaryOpcode) (operand : Term)
  | binary (opcode : BinaryOpcode) (left right : Term)

namespace Term

/-- Push the value of a term. -/
def code : Term → List Instruction
  | const value => [⟨.pushi, some value⟩]
  | frame offset => [⟨.pushiEff, some offset⟩]
  | load address => address.code ++ [⟨.fetchm, none⟩]
  | unary opcode operand => operand.code ++ [⟨opcode, none⟩]
  | binary opcode left right => left.code ++ (right.code ++ [⟨opcode, none⟩])

/-- The number of words of the code. -/
def words (term : Term) : Nat := (encode term.code).length

/-- The number of stack slots that the code uses. -/
def height : Term → Nat
  | const _ | frame _ => 1
  | load address => address.height
  | unary _ operand => operand.height
  | binary _ left right => max left.height (right.height + 1)

/-- The value of a term where `memory` holds the words at addresses and `bp` is the base pointer; there is
none if a divisor is zero. -/
def value? (bp : UInt16) (memory : UInt16 → UInt16) : Term → Option UInt16
  | const value => some value
  | frame offset => some (bp + offset)
  | load address => (address.value? bp memory).map memory
  | unary opcode operand =>
    (operand.value? bp memory).map fun x => UInt16.ofNat (unaryMeaning opcode x.toNat)
  | binary opcode left right =>
    (left.value? bp memory).bind fun x =>
      (right.value? bp memory).bind fun y =>
        (binaryMeaning opcode x.toNat y.toNat).map UInt16.ofNat

/-- The addresses that a term reads. -/
def reads (bp : UInt16) (memory : UInt16 → UInt16) : Term → List UInt16
  | const _ | frame _ => []
  | load address => address.reads bp memory ++ (address.value? bp memory).toList
  | unary _ operand => operand.reads bp memory
  | binary _ left right => left.reads bp memory ++ right.reads bp memory

/-- The divisions of a term in the order of its code, each with the word of the code at which its opcode
stands and its divisor. -/
def divisions : Term → List (Nat × Term)
  | const _ | frame _ => []
  | load address => address.divisions
  | unary _ operand => operand.divisions
  | binary opcode left right =>
    left.divisions ++ (right.divisions.map fun d => (left.words + d.1, d.2)) ++
      if divides opcode then [(left.words + right.words, right)] else []

/-- The word of the code at which the first division by zero stands. -/
def faultsAt? (bp : UInt16) (memory : UInt16 → UInt16) (term : Term) : Option Nat :=
  (term.divisions.find? fun d => d.2.value? bp memory = some 0).map (·.1)

variable {bp : UInt16} {memory : UInt16 → UInt16}

theorem height_pos (term : Term) : 1 ≤ term.height := by
  induction term with
  | load address ih => exact ih
  | unary opcode operand ih => exact ih
  | binary opcode left right ihLeft ihRight => exact Nat.le_trans ihLeft (Nat.le_max_left _ _)
  | _ => exact Nat.le_refl 1

theorem words_binary (opcode : BinaryOpcode) (left right : Term) :
    (binary opcode left right).words = left.words + right.words + 1 := by
  simp [words, code, Nat.add_assoc, encode]

theorem faultsAt?_binary (opcode : BinaryOpcode) (left right : Term) :
    (binary opcode left right).faultsAt? bp memory =
      (left.faultsAt? bp memory).or (((right.faultsAt? bp memory).map (left.words + ·)).or
        (if divides opcode = true ∧ right.value? bp memory = some 0 then
          some (left.words + right.words) else none)) := by
  have hlast : ((if divides opcode = true then [(left.words + right.words, right)] else []).find?
      fun d => d.2.value? bp memory = some 0).map (·.1) =
        if divides opcode = true ∧ right.value? bp memory = some 0 then
          some (left.words + right.words) else none := by
    by_cases hdivides : divides opcode = true <;>
      by_cases hzero : right.value? bp memory = some 0 <;> simp [hdivides, hzero]
  unfold faultsAt?
  rw [divisions, List.find?_append, List.find?_append, List.find?_map, ← hlast]
  simp [Option.map_or, Function.comp_def, Option.or_assoc]

end Term

/-! ## Runs -/

/-- The words up to `bound` are those of `memory`. -/
def Holds (memory : UInt16 → UInt16) (bound : Nat) (stack : OperandStack) : Prop :=
  bound ≤ stack.depth ∧
    ∀ address : UInt16, address.toNat < bound → stack.get address = .ok (memory address)

theorem Holds.pushed {memory : UInt16 → UInt16} {bound : Nat} {stack stack' : OperandStack}
    {value : UInt16} (h : Holds memory bound stack) (hpushed : stack.Pushed value stack')
    (hroom : stack.Room 1) : Holds memory bound stack' := by
  refine ⟨?_, fun address haddress => ?_⟩
  · rw [hpushed.depth hroom]
    exact Nat.le_succ_of_le h.1
  · rw [hpushed.below address (Nat.lt_of_lt_of_le haddress h.1)]
    exact h.2 address haddress

variable {σ : Type}

/-- The machine works through the code of a term at word `index` and leaves a value on the stack. -/
def Pushes (host : Host σ) (c : Conversation σ) (index : Nat) (stack : OperandStack) (term : Term)
    (value : UInt16) : Prop :=
  ∃ stack', Steps host term.code.length (c.moved index stack) (c.moved (index + term.words) stack') ∧
    stack.Pushed value stack'

/-- The machine works through the code of a term at word `index` up to its word `offset`, where it divides
by zero. -/
def Faults (host : Host σ) (c : Conversation σ) (index : Nat) (stack : OperandStack) (term : Term)
    (offset : Nat) : Prop :=
  ∃ count < term.code.length, ∃ stack₁ stack₂,
    Steps host count (c.moved index stack) (c.moved (index + offset) stack₁) ∧
      step host (c.moved (index + offset) stack₁) =
        .error (.divisionByZero (UInt16.ofNat (index + offset)))
          (finish (c.moved (index + offset) stack₂))

/-- What the machine does at the code of a term: it pushes the value, or it faults at the first division by
zero. -/
def Outcome (host : Host σ) (c : Conversation σ) (memory : UInt16 → UInt16) (index : Nat)
    (stack : OperandStack) (term : Term) : Prop :=
  match term.faultsAt? c.machine.bp memory with
  | none => ∃ value, term.value? c.machine.bp memory = some value ∧ Pushes host c index stack term value
  | some offset => term.value? c.machine.bp memory = none ∧ Faults host c index stack term offset

section Runs

variable {host : Host σ} {c : Conversation σ} {memory : UInt16 → UInt16} {index bound : Nat}
  {stack : OperandStack}

/-- The left operand of an operator comes first, so its fault is the fault of the term. -/
theorem Faults.left {opcode : BinaryOpcode} {left right : Term} {offset : Nat}
    (h : Faults host c index stack left offset) :
    Faults host c index stack (.binary opcode left right) offset := by
  obtain ⟨count, hcount, hrun⟩ := h
  refine ⟨count, ?_, hrun⟩
  rw [Term.code, List.length_append]
  exact Nat.lt_add_right _ hcount

/-- The right operand comes behind the value of the left one. -/
theorem Faults.right {opcode : BinaryOpcode} {left right : Term} {offset : Nat} {stack₁ : OperandStack}
    (hleft : Steps host left.code.length (c.moved index stack) (c.moved (index + left.words) stack₁))
    (h : Faults host c (index + left.words) stack₁ right offset) :
    Faults host c index stack (.binary opcode left right) (left.words + offset) := by
  obtain ⟨count, hcount, stack₂, stack₃, hright, hstep⟩ := h
  rw [Nat.add_assoc] at hright hstep
  refine ⟨left.code.length + count, ?_, stack₂, stack₃, hleft.trans hright, hstep⟩
  rw [Term.code, List.length_append, List.length_append]
  omega

/-- The operator comes last, with both operands on the stack. -/
theorem outcome_operator (hgoing : c.machine.finished = false) (opcode : BinaryOpcode) {left right : Term}
    {x y : UInt16} {stack₁ stack₂ : OperandStack}
    (hcode : CodeAt c.machine.image.code index (Term.binary opcode left right).code) (hroom : stack.Room 2)
    (hoperands : Steps host (left.code.length + right.code.length) (c.moved index stack)
      (c.moved (index + (left.words + right.words)) stack₂))
    (hpushed₁ : stack.Pushed x stack₁) (hpushed₂ : stack₁.Pushed y stack₂)
    (hleft : left.faultsAt? c.machine.bp memory = none) (hright : right.faultsAt? c.machine.bp memory = none)
    (hx : left.value? c.machine.bp memory = some x) (hy : right.value? c.machine.bp memory = some y) :
    Outcome host c memory index stack (.binary opcode left right) := by
  have hopcode : CodeAt c.machine.image.code (index + (left.words + right.words)) [⟨opcode, none⟩] := by
    rw [← Nat.add_assoc]
    exact hcode.append.2.append.2
  have hlength : (Term.binary opcode left right).code.length = left.code.length + right.code.length + 1 := by
    simp [Term.code, Nat.add_assoc]
  have hvalue : (Term.binary opcode left right).value? c.machine.bp memory = evalBinary opcode x y := by
    rw [Term.value?, hx, hy, evalBinary_eq]
    rfl
  have hdivides : (divides opcode = true ∧ right.value? c.machine.bp memory = some 0) ↔
      evalBinary opcode x y = none := by
    rw [evalBinary_eq_none_iff, hy, Option.some.injEq]
  obtain ⟨hsome, hnone⟩ := steps_binary host hgoing opcode hopcode hroom hpushed₁ hpushed₂
  unfold Outcome
  rw [Term.faultsAt?_binary, hleft, hright, hvalue]
  cases heval : evalBinary opcode x y with
  | none =>
    obtain ⟨stack₃, hstep⟩ := hnone heval
    rw [if_pos (hdivides.2 heval)]
    exact ⟨rfl, left.code.length + right.code.length, by omega, stack₂, stack₃, hoperands, hstep⟩
  | some value =>
    obtain ⟨stack₃, hrun₃, hpushed₃⟩ := hsome value heval
    have hnot := mt hdivides.1 (by rw [heval]; exact Option.some_ne_none value)
    rw [if_neg hnot]
    refine ⟨value, rfl, stack₃, ?_, hpushed₃⟩
    rw [hlength, Term.words_binary, ← Nat.add_assoc index]
    exact hoperands.trans hrun₃

theorem outcome_binary (hgoing : c.machine.finished = false) (opcode : BinaryOpcode) {left right : Term}
    (hcode : CodeAt c.machine.image.code index (Term.binary opcode left right).code)
    (hroom : stack.Room (Term.binary opcode left right).height)
    (hleft : Outcome host c memory index stack left)
    (hright : ∀ value stack', stack.Pushed value stack' →
      Outcome host c memory (index + left.words) stack' right) :
    Outcome host c memory index stack (.binary opcode left right) := by
  unfold Outcome at hleft
  cases hfault : left.faultsAt? c.machine.bp memory with
  | some offset =>
    rw [hfault] at hleft
    obtain ⟨hnone, hfaults⟩ := hleft
    unfold Outcome
    rw [Term.faultsAt?_binary, hfault, Term.value?, hnone]
    exact ⟨rfl, hfaults.left⟩
  | none =>
    rw [hfault] at hleft
    obtain ⟨x, hx, stack₁, hrun₁, hpushed₁⟩ := hleft
    have hright := hright x stack₁ hpushed₁
    unfold Outcome at hright
    cases hfault' : right.faultsAt? c.machine.bp memory with
    | some offset =>
      rw [hfault'] at hright
      obtain ⟨hnone, hfaults⟩ := hright
      unfold Outcome
      rw [Term.faultsAt?_binary, hfault, hfault', Term.value?, hx, hnone]
      exact ⟨rfl, hfaults.right hrun₁⟩
    | none =>
      rw [hfault'] at hright
      obtain ⟨y, hy, stack₂, hrun₂, hpushed₂⟩ := hright
      rw [Nat.add_assoc] at hrun₂
      -- The right operand is computed above the value of the left one, so its height allows for both.
      have hroomTwo : stack.Room 2 := hroom.mono
        (Nat.le_trans (Nat.succ_le_succ right.height_pos) (Nat.le_max_right _ _))
      exact outcome_operator hgoing opcode hcode hroomTwo (hrun₁.trans hrun₂) hpushed₁ hpushed₂ hfault hfault' hx hy

/-- An instruction behind the code of a term that replaces the value of the term by another one. -/
theorem outcome_behind {operand term : Term} {opcode : Opcode} {f : UInt16 → UInt16}
    (hcode : term.code = operand.code ++ [⟨opcode, none⟩])
    (hfaults : term.faultsAt? c.machine.bp memory = operand.faultsAt? c.machine.bp memory)
    (hvalue : term.value? c.machine.bp memory = (operand.value? c.machine.bp memory).map f)
    (houtcome : Outcome host c memory index stack operand)
    (hsteps : ∀ value stack', operand.value? c.machine.bp memory = some value →
      stack.Pushed value stack' → ∃ stack'', Steps host 1 (c.moved (index + operand.words) stack')
        (c.moved (index + operand.words + 1) stack'') ∧ stack.Pushed (f value) stack'') :
    Outcome host c memory index stack term := by
  have hlength : term.code.length = operand.code.length + 1 := by simp [hcode]
  have hwords : term.words = operand.words + 1 := by simp [Term.words, hcode, encode]
  unfold Outcome at houtcome ⊢
  rw [hfaults]
  cases hfault : operand.faultsAt? c.machine.bp memory with
  | some offset =>
    rw [hfault] at houtcome
    obtain ⟨hnone, count, hcount, hrun⟩ := houtcome
    exact ⟨by rw [hvalue, hnone]; rfl, count, by omega, hrun⟩
  | none =>
    rw [hfault] at houtcome
    obtain ⟨value, hsome, stack₁, hrun₁, hpushed₁⟩ := houtcome
    obtain ⟨stack₂, hrun₂, hpushed₂⟩ := hsteps value stack₁ hsome hpushed₁
    refine ⟨f value, by rw [hvalue, hsome]; rfl, stack₂, ?_, hpushed₂⟩
    rw [hlength, hwords]
    exact hrun₁.trans hrun₂

/-- The code of a term does what the term says.  The memory it reads lies below the stack pointer, where
the code writes nothing. -/
theorem outcome_term (hhost : Host.Transparent host) (hgoing : c.machine.finished = false) (term : Term)
    (hcode : CodeAt c.machine.image.code index term.code) (hroom : stack.Room term.height)
    (hholds : Holds memory bound stack)
    (hreads : ∀ address ∈ term.reads c.machine.bp memory, address.toNat < bound) :
    Outcome host c memory index stack term := by
  have hone := hroom.mono term.height_pos
  induction term generalizing index stack with
  | const value =>
    obtain ⟨stack₁, hrun, hpushed⟩ := steps_pushi host hgoing hcode hone
    exact ⟨value, rfl, stack₁, hrun, hpushed⟩
  | frame offset =>
    obtain ⟨stack₁, hrun, hpushed⟩ := steps_pushiEff host hgoing hcode hone
    exact ⟨_, rfl, stack₁, hrun, hpushed⟩
  | load address ih =>
    obtain ⟨haddress, hload⟩ := hcode.append
    refine outcome_behind rfl rfl rfl (ih haddress hroom hholds (fun read hread =>
      hreads read (List.mem_append_left _ hread)) hone) fun value stack₁ hvalue hpushed => ?_
    have hread : value.toNat < bound := hreads value (List.mem_append_right _ (by rw [hvalue]; simp))
    exact steps_fetchm hgoing hhost hload hone hpushed (Nat.lt_of_lt_of_le hread hholds.1)
      (hholds.2 value hread)
  | unary opcode operand ih =>
    obtain ⟨hoperand, hopcode⟩ := hcode.append
    refine outcome_behind rfl rfl rfl (ih hoperand hroom hholds hreads hone)
      fun value stack₁ _ hpushed => ?_
    rw [← evalUnary_eq]
    exact steps_unary host hgoing opcode hopcode hone hpushed
  | binary opcode left right ihLeft ihRight =>
    have hroomLeft : stack.Room left.height := hroom.mono (Nat.le_max_left _ _)
    have hroomRight : stack.Room (right.height + 1) := hroom.mono (Nat.le_max_right _ _)
    obtain ⟨hleft, hbehind⟩ := hcode.append
    refine outcome_binary hgoing opcode hcode hroom
      (ihLeft hleft hroomLeft hholds
        (fun read hread => hreads read (List.mem_append_left _ hread)) hone)
      fun value stack₁ hpushed => ?_
    have hroomRight₁ := hpushed.room hroomRight
    exact ihRight hbehind.append.1 hroomRight₁ (hholds.pushed hpushed hone)
      (fun read hread => hreads read (List.mem_append_right _ hread))
      (hroomRight₁.mono right.height_pos)

end Runs

theorem holds_slotOrZero {m : Machine} {count : Nat} (hroom : m.stack.Room count) :
    Holds m.slotOrZero m.stack.depth m.stack := by
  refine ⟨Nat.le_refl _, fun address haddress => ?_⟩
  have hslot : address.toNat < m.stack.slots.size := by
    have := hroom.1
    omega
  unfold slotOrZero OperandStack.get
  rw [Array.getElem?_eq_getElem hslot]

/-- Postfix code evaluates its term.  A run of as many steps as the code has instructions ends behind the
code with the value of the term on top of an otherwise unchanged stack; or, where a divisor is zero, with a
fault of the machine, which is finished, at the first such division. -/
theorem run_postfix {host : Host σ} (hhost : Host.Transparent host) {c : Conversation σ}
    (hgoing : c.machine.finished = false) (term : Term)
    (hcode : CodeAt c.machine.image.code c.machine.ip.toNat term.code)
    (hroom : c.machine.stack.Room term.height)
    (hreads : ∀ address ∈ term.reads c.machine.bp c.machine.slotOrZero,
      address.toNat < c.machine.stack.depth) :
    match term.faultsAt? c.machine.bp c.machine.slotOrZero with
    | none => ∃ value stack, term.value? c.machine.bp c.machine.slotOrZero = some value ∧
        run host term.code.length c = .ok (.stepLimit term.code.length)
          (c.moved (c.machine.ip.toNat + term.words) stack) ∧
        c.machine.stack.Pushed value stack
    | some offset => ∃ stack,
        run host term.code.length c =
          .error (.divisionByZero (UInt16.ofNat (c.machine.ip.toNat + offset)))
            (finish (c.moved (c.machine.ip.toNat + offset) stack)) := by
  have houtcome := outcome_term hhost hgoing term hcode hroom (holds_slotOrZero hroom) hreads
  unfold Outcome at houtcome
  cases hfault : term.faultsAt? c.machine.bp c.machine.slotOrZero with
  | none =>
    rw [hfault] at houtcome
    obtain ⟨value, hvalue, stack, hrun, hpushed⟩ := houtcome
    rw [moved_self] at hrun
    exact ⟨value, stack, hvalue, hrun.run, hpushed⟩
  | some offset =>
    rw [hfault] at houtcome
    obtain ⟨-, count, hcount, stack₁, stack, hrun, hstep⟩ := houtcome
    rw [moved_self] at hrun
    obtain ⟨more, hmore⟩ : ∃ more, term.code.length = count + (more + 1) :=
      ⟨term.code.length - count - 1, by omega⟩
    refine ⟨stack, ?_⟩
    rw [hmore, run, hrun.runFrom, runFrom, hstep]

/-- A machine in front of the code of a term. -/
def postfixStart (term : Term) : Conversation Unit :=
  ⟨{ ofImage (.ofCode (encode term.code).toArray) [] with
    stack := ⟨#[70, 9, 4, 12, 0, 0, 0], 3⟩, bp := 2, finished := false }, ()⟩

theorem codeAt_postfixStart (term : Term) (hsize : term.words ≤ UInt16.size) :
    CodeAt (postfixStart term).machine.image.code 0 term.code :=
  ⟨[], [], by simp [postfixStart, ofImage, Image.ofCode], rfl, by rwa [Nat.zero_add]⟩

/-- Addresses are below a bound if a walk along them says so. -/
theorem reads_below_of_all {addresses : List UInt16} {bound : Nat}
    (h : addresses.all (·.toNat < bound) = true) : ∀ address ∈ addresses, address.toNat < bound := by
  simpa only [List.all_eq_true, decide_eq_true_eq] using h

/-- A local variable taken from a constant. -/
def remainder : Term := .binary ⟨.sub, rfl⟩ (.const 10) (.load (.frame 1))

/-- A global divided by a difference. -/
def quotient : Term :=
  .binary ⟨.div, rfl⟩ (.load (.const 0)) (.binary ⟨.sub, rfl⟩ (.const 2) (.const 2))

theorem run_postfix_remainder_quotient :
    (∃ stack, run Host.silent 4 (postfixStart remainder) =
        .ok (.stepLimit 4) ((postfixStart remainder).moved 6 stack) ∧
      (postfixStart remainder).machine.stack.Pushed 0xfffe stack) ∧
    ∃ stack, run Host.silent 6 (postfixStart quotient) =
      .error (.divisionByZero 8) (finish ((postfixStart quotient).moved 8 stack)) := by
  have hhost : Host.Transparent Host.silent := fun _ _ => rfl
  constructor
  · have hrun := run_postfix hhost (c := postfixStart remainder) rfl remainder
      (codeAt_postfixStart remainder (by decide)) ⟨by decide, by decide⟩
      (reads_below_of_all (by decide))
    obtain ⟨value, stack, hvalue, hrun, hpushed⟩ := hrun
    cases hvalue
    exact ⟨stack, hrun, hpushed⟩
  · have hrun := run_postfix hhost (c := postfixStart quotient) rfl quotient
      (codeAt_postfixStart quotient (by decide)) ⟨by decide, by decide⟩
      (reads_below_of_all (by decide))
    exact hrun

end Parley.Machine
