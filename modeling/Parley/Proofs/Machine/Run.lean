import Parley.Proofs.Machine.Frame
set_option autoImplicit false

/-!
# Runs

A run that does not fault is a sequence of steps.  What each step upholds, the run upholds.  A slot of the
memory ends with the value that was stored in it last, provided that each step behind that store leaves the
slot alone.  Where no step takes a global off the stack, all steps leave the globals alone but for stores.
-/

namespace Parley.Machine

open Fallible

variable {σ : Type}

/-! ## The steps of a run -/

/-- The conversations in which a run carries out its steps. -/
def visited (host : Host σ) : Nat → Conversation σ → List (Conversation σ)
  | 0, _ => []
  | limit + 1, c =>
    match step host c with
    | .ok .continue c' => c :: visited host limit c'
    | .ok (.finished _) _ | .error _ _ => [c]

/-- Steps lead from one conversation to another, none of them with a fault. -/
inductive Ran (host : Host σ) : List (Conversation σ) → Conversation σ → Conversation σ → Prop
  | still {c : Conversation σ} : Ran host [] c c
  | step {c c₁ c' : Conversation σ} {rest : List (Conversation σ)} {outcome : Step}
      (first : Machine.step host c = .ok outcome c₁) (later : Ran host rest c₁ c') :
      Ran host (c :: rest) c c'

variable {host : Host σ} {c c' : Conversation σ} {states : List (Conversation σ)}

theorem ran_of_runFrom {steps limit : Nat} {outcome : RunOutcome}
    (h : runFrom host steps limit c = .ok outcome c') : Ran host (visited host limit c) c c' := by
  induction limit generalizing steps c with
  | zero =>
    cases h
    exact .still
  | succ limit ih =>
    unfold runFrom at h
    unfold visited
    cases hstep : step host c with
    | error fault c₁ =>
      rw [hstep] at h
      cases h
    | ok next c₁ =>
      rw [hstep] at h
      cases next with
      | «continue» => exact .step hstep (ih h)
      | finished reason =>
        cases h
        exact .step hstep .still

theorem ran_of_run {limit : Nat} {outcome : RunOutcome} (h : run host limit c = .ok outcome c') :
    Ran host (visited host limit c) c c' := ran_of_runFrom h

/-- What each step upholds where it is allowed holds throughout a run. -/
theorem Ran.upholds (hran : Ran host states c c') {may : Conversation σ → Prop}
    (holds : Conversation σ → Prop)
    (hstep : ∀ {c c' : Conversation σ} {outcome : Step}, may c → holds c →
      Machine.step host c = .ok outcome c' → holds c')
    (hmay : ∀ state ∈ states, may state) (hbegin : holds c) :
    holds c' ∧ ∀ state ∈ states, holds state := by
  induction hran with
  | still => exact ⟨hbegin, fun state hnone => by cases hnone⟩
  | step first later ih =>
    obtain ⟨hmayFirst, hmayLater⟩ := List.forall_mem_cons.1 hmay
    obtain ⟨hend, hlater⟩ := ih hmayLater (hstep hmayFirst hbegin first)
    exact ⟨hend, List.forall_mem_cons.2 ⟨hbegin, hlater⟩⟩

theorem Ran.exists_step (hran : Ran host states c c') {state : Conversation σ} (hstate : state ∈ states) :
    ∃ outcome after, Machine.step host state = .ok outcome after := by
  induction hran with
  | still => cases hstate
  | step first later ih =>
    rcases List.mem_cons.1 hstate with rfl | hlater
    · exact ⟨_, _, first⟩
    · exact ih hlater

theorem lasting_of_step {outcome : Step} (h : step host c = .ok outcome c') :
    c'.machine.image = c.machine.image ∧ slotCount c' = slotCount c := by
  have hlasting := lasting_step host c
  rwa [h] at hlasting

/-! ## The value of a slot -/

/-- The value that the next step stores in a slot, if it does. -/
def storedAt? (m : Machine) (slot : Nat) : Option UInt16 :=
  match m.store? with
  | some (address, value) => if address.toNat = slot then some value else none
  | none => none

/-- The value that was stored last in a slot, if any, by the steps carried out in these conversations. -/
def lastStored? (slot : Nat) : List (Conversation σ) → Option UInt16
  | [] => none
  | c :: rest => (lastStored? slot rest).or (c.machine.storedAt? slot)

variable (host) in
/-- The slot lies below the words that the next step takes off the stack, or above the stack before and
after it. -/
def SparesSlot (slot : Nat) (c : Conversation σ) : Prop :=
  slot < c.machine.stack.depth - c.machine.popCount ∨
    max c.machine.stack.depth (final (step host c)).machine.stack.depth ≤ slot

variable (host) in
/-- Each step spares the slot, or the slot is stored to in this step or in a later one. -/
def Settled (slot : Nat) : List (Conversation σ) → Prop
  | [] => True
  | c :: rest =>
    (SparesSlot host slot c ∨ (lastStored? slot (c :: rest)).isSome = true) ∧ Settled slot rest

theorem storedAt?_eq_some {m : Machine} {slot : Nat} {value : UInt16} :
    m.storedAt? slot = some value ↔ ∃ address, m.store? = some (address, value) ∧ address.toNat = slot := by
  unfold storedAt?
  cases m.store? with
  | none => simp
  | some operands =>
    obtain ⟨address, stored⟩ := operands
    constructor
    · intro h
      obtain ⟨hslot, hvalue⟩ := Option.ite_none_right_eq_some.1 h
      cases hvalue
      exact ⟨address, rfl, hslot⟩
    · rintro ⟨_, heq, hslot⟩
      cases heq
      exact if_pos hslot

theorem getElem?_of_storedAt? {slot : Nat} {value : UInt16} {outcome : Step}
    (hsize : slotCount c < UInt16.size) (hstep : step host c = .ok outcome c')
    (hstored : c.machine.storedAt? slot = some value) :
    c'.machine.stack.slots[slot]? = some value := by
  obtain ⟨address, hstore, rfl⟩ := storedAt?_eq_some.1 hstored
  exact OperandStack.get_eq_ok.1 ((framed_step hsize hstep).stored address value hstore)

theorem getElem?_of_spares {slot : Nat} {outcome : Step} (hsize : slotCount c < UInt16.size)
    (hstep : step host c = .ok outcome c') (hspares : SparesSlot host slot c)
    (hstored : c.machine.storedAt? slot = none) :
    c'.machine.stack.slots[slot]? = c.machine.stack.slots[slot]? := by
  unfold SparesSlot at hspares
  rw [hstep] at hspares
  refine (framed_step hsize hstep).slots slot hspares ?_
  intro address value hstore heq
  have hsome : c.machine.storedAt? slot = some value := storedAt?_eq_some.2 ⟨address, hstore, heq.symm⟩
  cases hstored.symm.trans hsome

/-- A settled slot ends with the value that was stored in it last, or else with the one that it had. -/
theorem Ran.getElem?_slots {slot : Nat} (hran : Ran host states c c') (hsize : slotCount c < UInt16.size)
    (hsettled : Settled host slot states) :
    c'.machine.stack.slots[slot]? = (lastStored? slot states).or c.machine.stack.slots[slot]? := by
  induction hran with
  | still => rfl
  | @step c c₁ c' rest outcome first later ih =>
    obtain ⟨hfirst, hlater⟩ := hsettled
    have hsize₁ : slotCount c₁ < UInt16.size := by
      rw [(lasting_of_step first).2]
      exact hsize
    rw [ih hsize₁ hlater, lastStored?]
    rw [lastStored?] at hfirst
    cases hrest : lastStored? slot rest with
    | some value => rfl
    | none =>
      rw [hrest, Option.none_or] at hfirst
      rw [Option.none_or, Option.none_or]
      cases hstored : c.machine.storedAt? slot with
      | some value => exact getElem?_of_storedAt? hsize first hstored
      | none =>
        rw [hstored] at hfirst
        have hspares : SparesSlot host slot c := hfirst.resolve_right (by simp)
        exact getElem?_of_spares hsize first hspares hstored

/-- A step that takes no global off the stack spares all globals. -/
theorem sparesSlot_of_clear {slot : Nat} {outcome : Step} (hstep : step host c = .ok outcome c')
    (hclear : ClearOfGlobals c.machine) (hslot : slot < c.machine.image.reservedGlobals.toNat) :
    SparesSlot host slot c := by
  have hroom := hclear (step_eq_ok hstep).1
  exact Or.inl (by omega)

theorem Ran.settled_of_clear {slot : Nat} (hran : Ran host states c c')
    (hclear : ∀ state ∈ states, ClearOfGlobals state.machine)
    (hslot : slot < c.machine.image.reservedGlobals.toNat) : Settled host slot states := by
  induction hran with
  | still => trivial
  | step first later ih =>
    obtain ⟨hclearFirst, hclearLater⟩ := List.forall_mem_cons.1 hclear
    refine ⟨Or.inl (sparesSlot_of_clear first hclearFirst hslot), ih hclearLater ?_⟩
    rwa [(lasting_of_step first).1]

end Parley.Machine
