import Parley.Proofs.Machine.Step
import Parley.Proofs.Source.Tree
import Mathlib.Logic.Relation
set_option autoImplicit false

/-!
# Segments of code

What the machine does while it works through instructions that stand one behind the other: each of them is
fetched where the one before it ends, and changes the stack only.  Of the stack only the elements matter;
what lies above them is scratch space.
-/

namespace Parley

/-! ## Stacks -/

namespace OperandStack

variable {stack stack' stack'' : OperandStack} {value : UInt16}

/-- Stacks with the same elements, whatever lies above them. -/
structure Like (stack stack' : OperandStack) : Prop where
  size : stack'.slots.size = stack.slots.size
  sp : stack'.sp = stack.sp
  below : ∀ index, index.toNat < stack.depth → stack'.get index = stack.get index

/-- The second stack has one more element, whatever lies above it. -/
structure Pushed (stack : OperandStack) (value : UInt16) (stack' : OperandStack) : Prop where
  size : stack'.slots.size = stack.slots.size
  sp : stack'.sp = stack.sp + 1
  top : stack'.get (stack.sp + 1) = .ok value
  below : ∀ index, index.toNat < stack.depth → stack'.get index = stack.get index

/-- There is room for `count` more elements. -/
def Room (stack : OperandStack) (count : Nat) : Prop :=
  stack.depth + count ≤ stack.slots.size ∧ stack.depth + count < UInt16.size

theorem Room.mono {count less : Nat} (h : stack.Room count) (hle : less ≤ count) : stack.Room less :=
  ⟨by have := h.1; omega, by have := h.2; omega⟩

theorem Like.refl (stack : OperandStack) : stack.Like stack := ⟨rfl, rfl, fun _ _ => rfl⟩

theorem Like.depth (h : stack.Like stack') : stack'.depth = stack.depth := by
  rw [OperandStack.depth, h.sp, OperandStack.depth]

theorem Like.room {count : Nat} (h : stack.Like stack') (hroom : stack.Room count) :
    stack'.Room count := by
  unfold Room
  rw [h.depth, h.size]
  exact hroom

theorem Pushed.depth (h : stack.Pushed value stack') (hroom : stack.Room 1) :
    stack'.depth = stack.depth + 1 := by
  have hsize : stack.depth + 1 < 2 ^ 16 := hroom.2
  unfold OperandStack.depth at hsize ⊢
  have hone : UInt16.toNat 1 = 1 := rfl
  rw [h.sp, UInt16.toNat_add, hone, Nat.mod_eq_of_lt hsize]

theorem Pushed.room {count : Nat} (h : stack.Pushed value stack') (hroom : stack.Room (count + 1)) :
    stack'.Room count := by
  have hone := h.depth (hroom.mono (Nat.le_add_left 1 count))
  unfold Room at hroom ⊢
  rw [hone, h.size]
  omega

/-- A value on top of an element is on top of it for all stacks with that element. -/
theorem Pushed.like (h : stack.Pushed value stack') (hroom : stack.Room 1)
    (hlike : stack'.Like stack'') : stack.Pushed value stack'' := by
  have hdepth := h.depth hroom
  refine ⟨hlike.size.trans h.size, hlike.sp.trans h.sp, ?_, fun index hindex => ?_⟩
  · rw [hlike.below _ ?_, h.top]
    rw [hdepth]
    exact Nat.lt_succ_self _
  · rw [hlike.below index (by omega), h.below index hindex]

theorem get_extend_of_lt {index : UInt16} (h : index.toNat < stack.depth) :
    (stack.extend value).get index = stack.get index := by
  have hne : (stack.sp + 1).toNat ≠ index.toNat := Nat.ne_of_gt h
  unfold get extend
  rw [Array.getElem?_setIfInBounds_ne hne]

/-- A value is pushed where there is room. -/
theorem Like.extend (h : stack.Like stack') (hroom : stack.Room 1) (value : UInt16) :
    stack'.hasSlot (stack'.sp + 1) = true ∧ stack.Pushed value (stack'.extend value) := by
  have hslot : stack'.depth < stack'.slots.size := (h.room hroom).1
  refine ⟨decide_eq_true hslot, ⟨?_, ?_, ?_, fun index hindex => ?_⟩⟩
  · rw [OperandStack.extend, Array.size_setIfInBounds, h.size]
  · rw [OperandStack.extend, h.sp]
  · have hlt : (stack'.sp + 1).toNat < stack'.slots.size := hslot
    rw [← h.sp, get, OperandStack.extend, Array.getElem?_setIfInBounds_self_of_lt hlt]
  · rw [get_extend_of_lt (by rwa [h.depth]), h.below index hindex]

/-- The value on top is popped. -/
theorem Pushed.pop (h : stack.Pushed value stack') (hroom : stack.Room 1) :
    stack'.pop = .ok (value, { stack' with sp := stack.sp }) ∧
      stack.Like { stack' with sp := stack.sp } := by
  have hne : stack'.sp ≠ emptySp := by
    intro heq
    have hdepth := h.depth hroom
    unfold OperandStack.depth at hdepth
    rw [heq] at hdepth
    exact Nat.succ_ne_zero _ hdepth.symm
  refine ⟨?_, ⟨h.size, rfl, h.below⟩⟩
  rw [OperandStack.pop, if_neg hne, h.sp, h.top]
  simp [Except.map]

end OperandStack

/-! ## Code at a position -/

/-- The words of `code` stand from word `index` on. -/
def CodeAt (words : CodeWords) (index : Nat) (code : List Instruction) : Prop :=
  ∃ before behind, words.toList = before ++ (Source.encode code ++ behind) ∧
    before.length = index ∧ index + (Source.encode code).length ≤ UInt16.size

namespace CodeAt

open Source

variable {words : CodeWords} {index : Nat}

theorem append {code rest : List Instruction} (h : CodeAt words index (code ++ rest)) :
    CodeAt words index code ∧ CodeAt words (index + (encode code).length) rest := by
  obtain ⟨before, behind, hwords, hbefore, hsize⟩ := h
  rw [encode_append, List.length_append] at hsize
  rw [encode_append] at hwords
  refine ⟨⟨before, encode rest ++ behind, ?_, hbefore, by omega⟩,
    ⟨before ++ encode code, behind, ?_, ?_, by omega⟩⟩
  · rw [hwords, List.append_assoc]
  · rw [hwords, List.append_assoc, List.append_assoc]
  · rw [List.length_append, hbefore]

/-- The machine fetches the instruction that stands there. -/
theorem fetch {opcode : Opcode} {operand : Option UInt16}
    (h : CodeAt words index [⟨opcode, operand⟩]) (hwell : WellFormed ⟨opcode, operand⟩) :
    Machine.fetch words (UInt16.ofNat index) = .ok (opcode, operand.getD 0) := by
  obtain ⟨before, behind, hwords, rfl, hsize⟩ := h
  have htakes : operand.isSome = opcode.takesOperand := hwell
  have hcode : encode [⟨opcode, operand⟩] = opcode.toWord :: operand.toList := by simp [encode]
  rw [hcode, List.length_cons] at hsize
  rw [hcode] at hwords
  have hpos : (UInt16.ofNat before.length).toNat = before.length :=
    UInt16.toNat_ofNat_of_lt' (by omega)
  have hword : words[before.length]? = some opcode.toWord := by
    rw [← Array.getElem?_toList, hwords]
    simp
  unfold Machine.fetch
  rw [hpos, hword]
  simp only [Opcode.ofWord?_toWord]
  cases operand with
  | none =>
    rw [← htakes]
    rfl
  | some word =>
    have hbehind : words[before.length + 1]? = some word := by
      rw [← Array.getElem?_toList, hwords, List.getElem?_append_right (Nat.le_add_right _ 1),
        Nat.add_sub_cancel_left]
      rfl
    rw [← htakes, hbehind]
    rfl

end CodeAt

/-- The conversation with its machine at a word of the code and with another stack. -/
def Conversation.moved {σ : Type} (c : Conversation σ) (index : Nat) (stack : OperandStack) :
    Conversation σ :=
  { c with machine := { c.machine with ip := UInt16.ofNat index, stack } }

namespace Machine

open Fallible Source

variable {σ : Type} {host : Host σ} {c c₁ c₂ c₃ : Conversation σ}

/-- The host leaves the values of globals as they are. -/
def Host.Transparent (host : Host σ) : Prop :=
  ∀ access state, host.readGlobal access state = (access.value, state)

/-! ## Steps in a row -/

/-- The machine gets from one state to another by steps with which the conversation goes on. -/
def Reaches (host : Host σ) : Conversation σ → Conversation σ → Prop :=
  Relation.ReflTransGen fun c c' => step host c = .ok .continue c'

/-- The machine gets from one state to another by so many steps with which the conversation goes on. -/
def Steps (host : Host σ) : Nat → Conversation σ → Conversation σ → Prop
  | 0, c, c' => c' = c
  | count + 1, c, c' => ∃ c₁, step host c = .ok .continue c₁ ∧ Steps host count c₁ c'

namespace Steps

theorem single (h : step host c = .ok .continue c₁) : Steps host 1 c c₁ := ⟨c₁, h, rfl⟩

theorem trans {count more : Nat} (h : Steps host count c₁ c₂) (h' : Steps host more c₂ c₃) :
    Steps host (count + more) c₁ c₃ := by
  induction count generalizing c₁ with
  | zero =>
    cases h
    rwa [Nat.zero_add]
  | succ count ih =>
    obtain ⟨c, hstep, hrest⟩ := h
    rw [Nat.add_right_comm]
    exact ⟨c, hstep, ih hrest⟩

theorem reaches {count : Nat} (h : Steps host count c₁ c₂) : Reaches host c₁ c₂ := by
  induction count generalizing c₁ with
  | zero =>
    cases h
    exact Relation.ReflTransGen.refl
  | succ count ih =>
    obtain ⟨c, hstep, hrest⟩ := h
    exact Relation.ReflTransGen.head hstep (ih hrest)

/-- A bounded run goes on from where so many steps lead. -/
theorem runFrom {count : Nat} (h : Steps host count c₁ c₂) (steps limit : Nat) :
    runFrom host steps (count + limit) c₁ = Machine.runFrom host (steps + count) limit c₂ := by
  induction count generalizing c₁ steps with
  | zero =>
    cases h
    rw [Nat.zero_add, Nat.add_zero]
  | succ count ih =>
    obtain ⟨c, hstep, hrest⟩ := h
    rw [Nat.add_right_comm, Machine.runFrom, hstep]
    change Machine.runFrom host (steps + 1) (count + limit) c = _
    rw [ih hrest, Nat.add_right_comm, Nat.add_assoc]

theorem run {count : Nat} (h : Steps host count c₁ c₂) :
    Machine.run host count c₁ = .ok (.stepLimit count) c₂ := by
  have hrun := h.runFrom 0 0
  rwa [Nat.add_zero, Nat.zero_add] at hrun

end Steps

/-! ## Single instructions -/

theorem moved_self : c.moved c.machine.ip.toNat c.machine.stack = c := by
  simp [Conversation.moved]

/-- An instruction is a step to where it leads. -/
theorem steps_of_flow (hgoing : c.machine.finished = false) {opcode : Opcode} {operand target : UInt16}
    {flow : Flow} (hfetch : fetch c.machine.image.code c.machine.ip = .ok (opcode, operand))
    (h : perform host c.machine.ip opcode operand c = .ok flow c₁)
    (htarget : flow.target? c.machine.ip opcode = some target) : Steps host 1 c (atPos c₁ target) :=
  Steps.single (step_eq_continue.2 ⟨hgoing, opcode, operand, flow, c₁, target, hfetch, h, htarget, rfl⟩)

/-- An instruction that leads on is a step to the place where it ends. -/
theorem steps_of_next (hgoing : c.machine.finished = false) {index : Nat} {opcode : Opcode}
    {operand : Option UInt16} {stack : OperandStack}
    (hcode : CodeAt c.machine.image.code index [⟨opcode, operand⟩])
    (hwell : WellFormed ⟨opcode, operand⟩)
    (h : perform host (UInt16.ofNat index) opcode (operand.getD 0) (c.moved index stack) = .ok .next c₁) :
    Steps host 1 (c.moved index stack)
      (atPos c₁ (UInt16.ofNat (index + (encode [⟨opcode, operand⟩]).length))) := by
  refine steps_of_flow (c := c.moved index stack) hgoing (hcode.fetch hwell) h ?_
  have htakes : operand.isSome = opcode.takesOperand := hwell
  have hlength : (encode [⟨opcode, operand⟩]).length = 1 + opcode.operandCount := by
    rw [Opcode.operandCount, ← htakes]
    cases operand <;> rfl
  rw [hlength]
  simp [Flow.target?, Conversation.moved, UInt16.ofNat_add, UInt16.add_assoc]

/-- An instruction that changes the stack only. -/
theorem steps_instruction (hgoing : c.machine.finished = false) {index : Nat} {opcode : Opcode}
    {operand : Option UInt16} {stack stack' : OperandStack}
    (hcode : CodeAt c.machine.image.code index [⟨opcode, operand⟩])
    (hwell : WellFormed ⟨opcode, operand⟩)
    (h : perform host (UInt16.ofNat index) opcode (operand.getD 0) (c.moved index stack) =
      .ok .next (c.moved index stack')) :
    Steps host 1 (c.moved index stack)
      (c.moved (index + (encode [⟨opcode, operand⟩]).length) stack') :=
  steps_of_next hgoing hcode hwell h

/-- A machine that faults is finished and stays at the instruction. -/
theorem step_of_fault (hgoing : c.machine.finished = false) {opcode : Opcode} {operand : UInt16}
    {fault : MachineFault} (hfetch : fetch c.machine.image.code c.machine.ip = .ok (opcode, operand))
    (h : perform host c.machine.ip opcode operand c = .error fault c₁) :
    step host c = .error fault (finish c₁) := by
  have hlift : lift (σ := σ) (fetch c.machine.image.code c.machine.ip) c = .ok (opcode, operand) c := by
    rw [hfetch]
    rfl
  have hexecute : execute host c = .error fault c₁ := by
    unfold execute
    rw [bind_of_ok (show current c = .ok c.machine c from rfl)]
    dsimp only
    rw [bind_of_ok hlift]
    exact bind_of_error h
  unfold step
  rw [hexecute]
  simp [hgoing]

theorem push_moved {index : Nat} {stack : OperandStack} {value : UInt16}
    (h : stack.hasSlot (stack.sp + 1) = true) :
    push value (c.moved index stack) = .ok () (c.moved index (stack.extend value)) :=
  if_pos h

theorem pop_moved {index : Nat} {stack stack' : OperandStack} {value : UInt16}
    (h : stack.pop = .ok (value, stack')) :
    pop (c.moved index stack) = .ok value (c.moved index stack') := by
  have hstack : (c.moved index stack).machine.stack.pop = .ok (value, stack') := h
  simp only [pop, hstack]
  rfl

theorem perform_pushi {index : Nat} {pos operand : UInt16} {stack : OperandStack}
    (h : stack.hasSlot (stack.sp + 1) = true) :
    perform host pos .pushi operand (c.moved index stack) =
      .ok .next (c.moved index (stack.extend operand)) :=
  bind_of_ok (push_moved h)

theorem perform_pushiEff {index : Nat} {pos operand : UInt16} {stack : OperandStack}
    (h : stack.hasSlot (stack.sp + 1) = true) :
    perform host pos .pushiEff operand (c.moved index stack) =
      .ok .next (c.moved index (stack.extend (c.machine.bp + operand))) :=
  bind_of_ok (push_moved h)

theorem fetchValue_moved (hhost : Host.Transparent host) {index : Nat} {address value : UInt16}
    {stack stack' : OperandStack} (hpop : stack.pop = .ok (address, stack'))
    (hget : stack'.get address = .ok value) (h : stack'.hasSlot (stack'.sp + 1) = true) :
    fetchValue host (c.moved index stack) = .ok () (c.moved index (stack'.extend value)) := by
  have hcurrent : current (c.moved index stack') =
      .ok (c.moved index stack').machine (c.moved index stack') := rfl
  have hlift : lift ((c.moved index stack').machine.stack.get address) (c.moved index stack') =
      .ok value (c.moved index stack') := by
    change lift (stack'.get address) _ = _
    rw [hget]
    rfl
  unfold fetchValue
  rw [bind_of_ok (pop_moved hpop), bind_of_ok hcurrent, bind_of_ok hlift]
  split
  · have hread (access : GlobalAccess) (hvalue : access.value = value) :
        readGlobal host access (c.moved index stack') = .ok value (c.moved index stack') := by
      simp only [readGlobal, hhost access, hvalue]
    rw [bind_of_ok (hread _ rfl)]
    exact push_moved h
  · exact push_moved h

theorem perform_fetchm (hhost : Host.Transparent host) {index : Nat}
    {pos operand address value : UInt16} {stack stack' : OperandStack}
    (hpop : stack.pop = .ok (address, stack')) (hget : stack'.get address = .ok value)
    (h : stack'.hasSlot (stack'.sp + 1) = true) :
    perform host pos .fetchm operand (c.moved index stack) =
      .ok .next (c.moved index (stack'.extend value)) :=
  bind_of_ok (fetchValue_moved hhost hpop hget h)

/-- A binary operator takes its right operand from the top and its left one from below. -/
theorem perform_binary {opcode : Opcode} (h : opcode.opcodeClass = .binary) {index : Nat}
    {pos operand left right : UInt16} {stack stack₁ stack₂ : OperandStack}
    (hright : stack.pop = .ok (right, stack₁)) (hleft : stack₁.pop = .ok (left, stack₂)) :
    perform host pos opcode operand (c.moved index stack) =
      match evalBinary opcode left right with
      | some value => (do push value; pure .next : Exec σ Flow) (c.moved index stack₂)
      | none => .error (.divisionByZero pos) (c.moved index stack₂) := by
  have hrun : perform host pos opcode operand = (do
      let right ← pop
      let left ← pop
      match evalBinary opcode left right with
      | some value => push value
      | none => throw (.divisionByZero pos)
      pure .next : Exec σ Flow) := by
    cases opcode <;> first | rfl | cases h
  rw [hrun, bind_of_ok (pop_moved hright), bind_of_ok (pop_moved hleft)]
  cases evalBinary opcode left right <;> rfl

theorem perform_unary {opcode : Opcode} (h : opcode.opcodeClass = .unary) {index : Nat}
    {pos operand value : UInt16} {stack stack' : OperandStack}
    (hpop : stack.pop = .ok (value, stack')) (hslot : stack'.hasSlot (stack'.sp + 1) = true) :
    perform host pos opcode operand (c.moved index stack) =
      .ok .next (c.moved index (stack'.extend (evalUnary opcode value))) := by
  have hrun : perform host pos opcode operand = (do
      let value ← pop
      push (evalUnary opcode value)
      pure .next : Exec σ Flow) := by
    cases opcode <;> first | rfl | cases h
  rw [hrun, bind_of_ok (pop_moved hpop)]
  exact bind_of_ok (push_moved hslot)

/-! ## Pushed values -/

section Pushes

variable (hgoing : c.machine.finished = false) {index : Nat} {stack stack' : OperandStack}

include hgoing

variable (host) in
theorem steps_pushi {value : UInt16}
    (hcode : CodeAt c.machine.image.code index [⟨.pushi, some value⟩]) (hroom : stack.Room 1) :
    ∃ stack', Steps host 1 (c.moved index stack)
        (c.moved (index + (encode [⟨.pushi, some value⟩]).length) stack') ∧
      stack.Pushed value stack' := by
  obtain ⟨hslot, hpushed⟩ := (OperandStack.Like.refl stack).extend hroom value
  exact ⟨_, steps_instruction hgoing hcode rfl (perform_pushi hslot), hpushed⟩

variable (host) in
theorem steps_pushiEff {offset : UInt16}
    (hcode : CodeAt c.machine.image.code index [⟨.pushiEff, some offset⟩]) (hroom : stack.Room 1) :
    ∃ stack', Steps host 1 (c.moved index stack)
        (c.moved (index + (encode [⟨.pushiEff, some offset⟩]).length) stack') ∧
      stack.Pushed (c.machine.bp + offset) stack' := by
  obtain ⟨hslot, hpushed⟩ := (OperandStack.Like.refl stack).extend hroom (c.machine.bp + offset)
  exact ⟨_, steps_instruction hgoing hcode rfl (perform_pushiEff hslot), hpushed⟩

theorem steps_fetchm (hhost : Host.Transparent host) {address value : UInt16}
    (hcode : CodeAt c.machine.image.code index [⟨.fetchm, none⟩]) (hroom : stack.Room 1)
    (hpushed : stack.Pushed address stack') (hbelow : address.toNat < stack.depth)
    (hget : stack.get address = .ok value) :
    ∃ stack'', Steps host 1 (c.moved index stack')
        (c.moved (index + (encode [⟨.fetchm, none⟩]).length) stack'') ∧
      stack.Pushed value stack'' := by
  obtain ⟨hpop, hlike⟩ := hpushed.pop hroom
  obtain ⟨hslot, hpushed'⟩ := hlike.extend hroom value
  have hget' := (hlike.below address hbelow).trans hget
  exact ⟨_, steps_instruction hgoing hcode rfl (perform_fetchm hhost hpop hget' hslot), hpushed'⟩

variable (host) in
theorem steps_unary (opcode : UnaryOpcode) {value : UInt16}
    (hcode : CodeAt c.machine.image.code index [⟨opcode, none⟩]) (hroom : stack.Room 1)
    (hpushed : stack.Pushed value stack') :
    ∃ stack'', Steps host 1 (c.moved index stack')
        (c.moved (index + (encode [⟨opcode, none⟩]).length) stack'') ∧
      stack.Pushed (evalUnary opcode value) stack'' := by
  obtain ⟨hpop, hlike⟩ := hpushed.pop hroom
  obtain ⟨hslot, hpushed'⟩ := hlike.extend hroom (evalUnary opcode value)
  exact ⟨_, steps_instruction hgoing hcode (takesOperand_unary opcode).symm
    (perform_unary opcode.2 hpop hslot), hpushed'⟩

variable (host) in
/-- A binary operator replaces its operands by its value, or it faults where it stands. -/
theorem steps_binary (opcode : BinaryOpcode) {left right : UInt16}
    (hcode : CodeAt c.machine.image.code index [⟨opcode, none⟩]) (hroom : stack.Room 2)
    {stack'' : OperandStack} (hleft : stack.Pushed left stack') (hright : stack'.Pushed right stack'') :
    (∀ value, evalBinary opcode left right = some value →
      ∃ stack₁, Steps host 1 (c.moved index stack'')
          (c.moved (index + (encode [⟨opcode, none⟩]).length) stack₁) ∧
        stack.Pushed value stack₁) ∧
    (evalBinary opcode left right = none →
      ∃ stack₁, step host (c.moved index stack'') =
        .error (.divisionByZero (UInt16.ofNat index)) (finish (c.moved index stack₁))) := by
  have hone := hroom.mono (Nat.le_succ 1)
  obtain ⟨hpopRight, hlikeRight⟩ := hright.pop (hleft.room hroom)
  obtain ⟨hpopLeft, hlike⟩ := (hleft.like hone hlikeRight).pop hone
  have hwell : WellFormed ⟨opcode, none⟩ := (takesOperand_binary opcode).symm
  have hperform : perform host (UInt16.ofNat index) opcode 0 (c.moved index stack'') =
      match evalBinary opcode left right with
      | some value =>
        (do push value; pure .next : Exec σ Flow) (c.moved index { stack'' with sp := stack.sp })
      | none => .error (.divisionByZero _) (c.moved index { stack'' with sp := stack.sp }) :=
    perform_binary opcode.2 hpopRight hpopLeft
  refine ⟨fun value hvalue => ?_, fun hnone => ?_⟩
  · obtain ⟨hslot, hpushed⟩ := hlike.extend hone value
    rw [hvalue] at hperform
    exact ⟨_, steps_instruction hgoing hcode hwell
      (hperform.trans (bind_of_ok (push_moved hslot))), hpushed⟩
  · rw [hnone] at hperform
    exact ⟨_, step_of_fault (c := c.moved index stack'') hgoing (hcode.fetch hwell) hperform⟩

end Pushes

end Machine

end Parley
