import Parley.Proofs.Machine.Observation
set_option autoImplicit false

/-!
# Stores

A store takes a value and an address off the stack, announces the write if the address is that of a global,
and writes the slot.
-/

namespace Parley

variable {σ α : Type}

/-- The conversation with another stack. -/
def Conversation.withStack (c : Conversation σ) (stack : OperandStack) : Conversation σ :=
  { c with machine := { c.machine with stack } }

namespace OperandStack

variable {stack stack' : OperandStack} {value : UInt16}

theorem get_eq_ok {index : UInt16} :
    stack.get index = .ok value ↔ stack.slots[index.toNat]? = some value := by
  unfold get
  split <;> simp_all

theorem hasSlot_iff {index : UInt16} : stack.hasSlot index = true ↔ index.toNat < stack.slots.size :=
  decide_eq_true_iff

theorem depth_of_ne_emptySp (h : stack.sp ≠ emptySp) : stack.depth = stack.sp.toNat + 1 := by
  have hne : stack.sp.toNat ≠ 0xffff := fun heq => h (UInt16.toNat_inj.1 heq)
  have hlt : stack.sp.toNat < 2 ^ 16 := stack.sp.toNat_lt
  have hmod : (stack.sp + 1).toNat = (stack.sp.toNat + 1) % 2 ^ 16 := UInt16.toNat_add _ _
  unfold depth
  omega

theorem depth_extend (h : stack.depth + 1 < UInt16.size) : (stack.extend value).depth = stack.depth + 1 := by
  have hmod : (stack.sp + 1 + 1).toNat = ((stack.sp + 1).toNat + 1) % UInt16.size := UInt16.toNat_add _ _
  exact hmod.trans (Nat.mod_eq_of_lt h)

/-- There is a slot for a value where another one was taken off. -/
theorem hasSlot_of_pop (h : stack.pop = .ok (value, stack')) :
    stack'.hasSlot (stack'.sp + 1) = true := by
  obtain ⟨-, hget, rfl⟩ := pop_eq_ok.1 h
  rw [hasSlot_iff, UInt16.sub_add_cancel]
  exact (Array.getElem?_eq_some_iff.1 (get_eq_ok.1 hget)).1

/-- The address and the value of a store, which takes the value off the stack first. -/
def storeOperands? (stack : OperandStack) : Option (UInt16 × UInt16) :=
  match stack.pop with
  | .error _ => none
  | .ok (value, rest) =>
    match rest.pop with
    | .error _ => none
    | .ok (address, _) => some (address, value)

end OperandStack

/-- The write that the host learns of when a value is stored at an address. -/
def Image.globalWrite? (image : Image) (address value : UInt16) : Option GlobalAccess :=
  if address < image.reservedGlobals then some ⟨address, image.globalName? address, value⟩ else none

/-- The state of the host when a write, if any, has been announced. -/
def Host.told (host : Host σ) (write : Option GlobalAccess) (state : σ) : σ :=
  match write with
  | some access => host.writeGlobal access state
  | none => state

theorem Host.told_noting (host : Host σ) (write : Option GlobalAccess)
    (state : σ × List HostCall) :
    (host.noting.told write state).2 = state.2 ++ write.toList.map .writeGlobal := by
  cases write with
  | none => simp [told]
  | some access => rfl

namespace Machine

open Fallible

variable {host : Host σ} {c c' : Conversation σ} {value : UInt16} {stack stack₁ : OperandStack}

theorem pop_of_ok (h : c.machine.stack.pop = .ok (value, stack)) :
    pop c = .ok value (c.withStack stack) := by
  unfold pop
  rw [h]
  rfl

theorem pop_of_error {fault : MachineFault} (h : c.machine.stack.pop = .error fault) :
    pop c = .error fault c := by
  unfold pop
  rw [h]

theorem onStack_eq_ok {f : OperandStack → Except MachineFault OperandStack} :
    onStack f c = .ok () c' ↔ ∃ stack, f c.machine.stack = .ok stack ∧ c' = c.withStack stack := by
  unfold onStack
  split
  · rename_i stack heq
    simp [heq, Conversation.withStack, eq_comm]
  · rename_i heq
    simp [heq]

theorem pop_bind_of_ok {f : UInt16 → Exec σ α} (h : c.machine.stack.pop = .ok (value, stack)) :
    (pop >>= f) c = f value (c.withStack stack) := bind_of_ok (pop_of_ok h)

theorem push_eq_ok (h : push value c = .ok () c') : c' = c.withStack (c.machine.stack.extend value) := by
  unfold push at h
  split at h
  · cases h
    rfl
  · cases h

theorem write_eq_ok {index : UInt16} (h : write index value c = .ok () c') :
    c.machine.stack.hasSlot index = true ∧ c' = c.withStack (c.machine.stack.write index value) := by
  unfold write at h
  split at h
  · rename_i hslot
    cases h
    exact ⟨hslot, rfl⟩
  · cases h

theorem current_bind {f : Machine → Exec σ α} : (current >>= f) c = f c.machine c := rfl

theorem lift_eq_ok {β : Type} {result : Except MachineFault β} {b : β} (h : lift result c = .ok b c') :
    result = .ok b ∧ c' = c := by
  cases result with
  | ok found =>
    cases h
    exact ⟨rfl, rfl⟩
  | error fault => cases h

theorem lift_bind_of_ok {β : Type} {result : Except MachineFault β} {b : β} {f : β → Exec σ α}
    (h : result = .ok b) : (lift result >>= f) c = f b c := by
  rw [h]
  rfl

theorem lift_bind_of_error {β : Type} {result : Except MachineFault β} {fault : MachineFault}
    {f : β → Exec σ α} (h : result = .error fault) : (lift result >>= f) c = .error fault c := by
  rw [h]
  rfl

/-- A store with its operands at hand writes the slot, after the host was told of it. -/
theorem storeValue_of_pops {address : UInt16} (hvalue : c.machine.stack.pop = .ok (value, stack₁))
    (haddress : stack₁.pop = .ok (address, stack)) :
    storeValue host c = write address value
      { c.withStack stack with
        host := host.told (c.machine.image.globalWrite? address value) c.host } := by
  unfold storeValue
  rw [pop_bind_of_ok hvalue, pop_bind_of_ok (c := c.withStack stack₁) haddress, current_bind]
  unfold Image.globalWrite?
  by_cases hglobal : address < c.machine.image.reservedGlobals
  · rw [if_pos hglobal]
    exact congrFun (if_pos hglobal) (c.withStack stack)
  · rw [if_neg hglobal]
    exact congrFun (if_neg hglobal) (c.withStack stack)

variable (host) in
/-- A store without its operands faults, and touches no slot. -/
theorem storeValue_of_none (h : c.machine.stack.storeOperands? = none) :
    ∃ fault stack, storeValue host c = .error fault (c.withStack stack) ∧
      stack.slots = c.machine.stack.slots := by
  unfold OperandStack.storeOperands? at h
  split at h
  · rename_i fault hpop
    exact ⟨fault, c.machine.stack, bind_of_error (pop_of_error hpop), rfl⟩
  · rename_i value rest hpop
    split at h
    · rename_i fault hrest
      refine ⟨fault, rest, ?_, OperandStack.slots_of_pop hpop⟩
      exact (pop_bind_of_ok hpop).trans (bind_of_error (pop_of_error (c := c.withStack rest) hrest))
    · cases h

theorem storeOperands?_eq_some {operands : UInt16 × UInt16}
    (h : c.machine.stack.storeOperands? = some operands) :
    ∃ stack₁ stack, c.machine.stack.pop = .ok (operands.2, stack₁) ∧
      stack₁.pop = .ok (operands.1, stack) := by
  unfold OperandStack.storeOperands? at h
  split at h
  · cases h
  · rename_i value rest hpop
    split at h
    · cases h
    · rename_i address stack hrest
      cases h
      exact ⟨rest, stack, hpop, hrest⟩

/-- A store that does not fault. -/
theorem storeValue_eq_ok (h : storeValue host c = .ok () c') :
    ∃ address value stack₁ stack, c.machine.stack.pop = .ok (value, stack₁) ∧
      stack₁.pop = .ok (address, stack) ∧ c.machine.stack.storeOperands? = some (address, value) ∧
      stack.hasSlot address = true ∧
      c' = { c.withStack (stack.write address value) with
        host := host.told (c.machine.image.globalWrite? address value) c.host } := by
  cases hoperands : c.machine.stack.storeOperands? with
  | none =>
    obtain ⟨fault, stack, hfault, -⟩ := storeValue_of_none host hoperands
    cases hfault.symm.trans h
  | some operands =>
    obtain ⟨stack₁, stack, hvalue, haddress⟩ := storeOperands?_eq_some hoperands
    rw [storeValue_of_pops hvalue haddress] at h
    obtain ⟨hslot, rfl⟩ := write_eq_ok h
    exact ⟨_, _, stack₁, stack, hvalue, haddress, rfl, hslot, rfl⟩

/-- Where the globals have slots, a store that faults touches none, and the host does not hear of it. -/
theorem storeValue_eq_error {fault : MachineFault}
    (hreserved : c.machine.image.reservedGlobals.toNat ≤ c.machine.stack.slots.size)
    (h : storeValue host c = .error fault c') :
    ∃ stack, c' = c.withStack stack ∧ stack.slots = c.machine.stack.slots := by
  cases hoperands : c.machine.stack.storeOperands? with
  | none =>
    obtain ⟨fault', stack, hfault, hslots⟩ := storeValue_of_none host hoperands
    cases hfault.symm.trans h
    exact ⟨stack, rfl, hslots⟩
  | some operands =>
    obtain ⟨stack₁, stack, hvalue, haddress⟩ := storeOperands?_eq_some hoperands
    have hslots : stack.slots = c.machine.stack.slots :=
      (OperandStack.slots_of_pop haddress).trans (OperandStack.slots_of_pop hvalue)
    rw [storeValue_of_pops hvalue haddress] at h
    unfold write at h
    split at h
    · cases h
    · rename_i hslot
      cases h
      have hout : ¬operands.1 < c.machine.image.reservedGlobals := by
        intro hlt
        refine hslot (OperandStack.hasSlot_iff.2 ?_)
        have hlt' := UInt16.lt_iff_toNat_lt.1 hlt
        change operands.1.toNat < stack.slots.size
        rw [hslots]
        omega
      refine ⟨stack, ?_, hslots⟩
      rw [Image.globalWrite?, if_neg hout]
      rfl

end Machine

end Parley
