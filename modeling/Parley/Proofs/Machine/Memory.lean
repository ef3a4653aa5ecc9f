import Parley.Proofs.Machine.Store
set_option autoImplicit false

/-!
# The size of the memory

No instruction adds a slot to the memory or takes one away, and none changes the image.  So what the start of
a conversation has checked, that the globals have slots, holds ever after.
-/

namespace Parley.Machine

open Fallible

variable {σ : Type} (host : Host σ)

/-! ## Steps -/

/-- A step changes neither the image nor the number of slots. -/
theorem lasting_step (c : Conversation σ) :
    (final (step host c)).machine.image = c.machine.image ∧
      slotCount (final (step host c)) = slotCount c := by
  have hstep := stepped host c
  generalize step host c = result at hstep
  have hlasting (opcode : Opcode) (operand : UInt16) : ∀ c₁,
      final (perform host c.machine.ip opcode operand c) = c₁ →
        c₁.machine.image = c.machine.image ∧ slotCount c₁ = slotCount c := by
    rintro _ rfl
    exact ⟨congrArg Fixed.image (keeps_perform host _ _ _ c), sized_perform host _ _ _ c⟩
  cases hstep with
  | refused hfinished => exact ⟨rfl, rfl⟩
  | unfetched hgoing hfetch => exact ⟨rfl, rfl⟩
  | @faulted opcode operand fault c₁ hgoing hfetch hperform =>
    exact hlasting opcode operand c₁ (congrArg final hperform)
  | @went opcode operand flow c₁ target hgoing hfetch hperform htarget =>
    exact hlasting opcode operand c₁ (congrArg final hperform)
  | @ended opcode operand reason c₁ hgoing hfetch hperform =>
    exact hlasting opcode operand c₁ (congrArg final hperform)

/-- The globals have slots. -/
def GlobalsFit (c : Conversation σ) : Prop := c.machine.image.reservedGlobals.toNat ≤ slotCount c

variable {host} {may : Machine → Prop} {begin c : Conversation σ} {calls : List HostCall}

theorem Trace.lasting (h : Trace host may begin calls c) :
    c.machine.image = begin.machine.image ∧ slotCount c = slotCount begin := by
  induction h with
  | begin => exact ⟨rfl, rfl⟩
  | step trace allowed ih =>
    obtain ⟨himage, hsize⟩ := lasting_step host _
    exact ⟨himage.trans ih.1, hsize.trans ih.2⟩

theorem Trace.globalsFit (h : Trace host may begin calls c) (hfit : GlobalsFit begin) : GlobalsFit c := by
  obtain ⟨himage, hsize⟩ := h.lasting
  unfold GlobalsFit at hfit ⊢
  rwa [himage, hsize]

/-! ## The start of a conversation -/

/-- The stack pointer is set for globals that have slots only. -/
theorem globalsFit_of_setSp {stack stack' : OperandStack} {reserved : UInt16}
    (h : stack.setSp (reserved - 1) = .ok stack') : reserved.toNat ≤ stack.slots.size := by
  unfold OperandStack.setSp at h
  split at h
  · rename_i hsp
    rcases hsp with hempty | hlt
    · have hzero : reserved = 0 := by
        have hback := congrArg (· + 1) hempty
        rwa [UInt16.sub_add_cancel] at hback
      rw [hzero]
      exact Nat.zero_le _
    · have hback : reserved.toNat = ((reserved - 1).toNat + 1) % UInt16.size := by
        have hadd : (reserved - 1 + 1).toNat = ((reserved - 1).toNat + 1) % UInt16.size :=
          UInt16.toNat_add _ _
        rwa [UInt16.sub_add_cancel] at hadd
      have hle := Nat.mod_le ((reserved - 1).toNat + 1) UInt16.size
      omega
  · cases h

/-- A conversation that has started has slots for its globals, and all the slots that it had before. -/
theorem fit_of_init {globals : List UInt16} {before : Conversation σ}
    (h : init host globals before = .ok () begin) :
    GlobalsFit begin ∧ slotCount begin = slotCount before := by
  have himage := (init_eq_ok h).1
  have hlasting := lasting_init host globals before
  rw [h] at hlasting
  have hsize : slotCount begin = slotCount before := congrArg Prod.snd hlasting
  unfold init at h
  obtain ⟨_, c₁, hstart, h⟩ := bind_eq_ok.1 h
  cases hstart
  obtain ⟨m, c₂, hm, h⟩ := bind_eq_ok.1 h
  cases hm
  obtain ⟨_, c₃, hsp, h⟩ := bind_eq_ok.1 h
  refine ⟨?_, hsize⟩
  obtain ⟨stack, hstack, -⟩ := onStack_eq_ok.1 hsp
  have hfit : before.machine.image.reservedGlobals.toNat ≤ before.machine.atStart.stack.slots.size :=
    globalsFit_of_setSp hstack
  unfold GlobalsFit
  rw [himage, hsize]
  exact Nat.le_trans hfit (Nat.le_of_eq Array.size_replicate)

end Parley.Machine
