import Parley.Proofs.Machine.Fault
set_option autoImplicit false

/-!
# What a step leaves alone

The operand stack is the memory as well, so an instruction that wrote one slot off would damage globals
without any fault.  None does: an instruction that takes words off the stack and puts others on it leaves
alone what lies below the words that it takes off and what lies above all of them; a store changes one
further slot.  The host learns of each store to a global slot, and of no other.
-/

namespace Parley

namespace OperandStack

variable {start stack stack' : OperandStack} {low count : Nat} {value : UInt16}

/-- What an operation leaves alone: the slots below `low` and those that are above the top before and after
it, but for the slot that it stores to. -/
structure Spares (start : OperandStack) (low : Nat) (store : Option UInt16) (stack : OperandStack) :
    Prop where
  slots : ∀ index, index < low ∨ max start.depth stack.depth ≤ index →
    (∀ address, store = some address → index ≠ address.toNat) →
    stack.slots[index]? = start.slots[index]?

/-- The second stack is the first one with `count` words taken off. -/
structure Lowered (start : OperandStack) (count : Nat) (stack : OperandStack) : Prop where
  slots : stack.slots = start.slots
  depth : stack.depth + count = start.depth

/-- The second stack still has the lowest `low` words of the first one, and nothing was written but words
on top of these. -/
structure Above (start : OperandStack) (low : Nat) (stack : OperandStack) : Prop where
  size : stack.slots.size = start.slots.size
  depth : low ≤ stack.depth
  spares : start.Spares low none stack

theorem spares_of_slots_eq {store : Option UInt16} (h : stack.slots = start.slots) :
    start.Spares low store stack :=
  ⟨fun index _ _ => congrArg (·[index]?) h⟩

theorem Lowered.refl (stack : OperandStack) : stack.Lowered 0 stack := ⟨rfl, rfl⟩

theorem Lowered.above (h : start.Lowered count stack) : start.Above (start.depth - count) stack :=
  ⟨congrArg Array.size h.slots, by have := h.depth; omega, spares_of_slots_eq h.slots⟩

theorem Lowered.pop (h : start.Lowered count stack) (hpop : stack.pop = .ok (value, stack')) :
    start.Lowered (count + 1) stack' := by
  obtain ⟨hsp, -, rfl⟩ := pop_eq_ok.1 hpop
  refine ⟨h.slots, ?_⟩
  have hdepth := depth_of_ne_emptySp hsp
  have hback : ({ stack with sp := stack.sp - 1 } : OperandStack).depth = stack.sp.toNat :=
    congrArg UInt16.toNat (UInt16.sub_add_cancel _ _)
  have hstart := h.depth
  omega

/-- A word is put on top of the words that are kept. -/
theorem Above.extend (h : start.Above low stack) (hsize : start.slots.size < UInt16.size)
    (hslot : stack.hasSlot (stack.sp + 1) = true) (value : UInt16) :
    start.Above low (stack.extend value) := by
  have hlt : stack.depth < stack.slots.size := hasSlot_iff.1 hslot
  have hbound : stack.depth + 1 < UInt16.size := by
    have hsame := h.size
    omega
  have hdepth : (stack.extend value).depth = stack.depth + 1 := depth_extend hbound
  have hlow := h.depth
  refine ⟨?_, by omega, ⟨fun index hindex hstore => ?_⟩⟩
  · rw [OperandStack.extend, Array.size_setIfInBounds, h.size]
  · rw [hdepth] at hindex
    have hne : (stack.sp + 1).toNat ≠ index := by
      change stack.depth ≠ index
      omega
    rw [OperandStack.extend, Array.getElem?_setIfInBounds_ne hne]
    exact h.spares.slots index (by omega) hstore

end OperandStack

namespace Machine

open Fallible OperandStack

variable {σ α : Type} {start : OperandStack} {low count : Nat}

/-! ## The slots below and above -/

/-- The stack of a conversation. -/
def stackOf (c : Conversation σ) : OperandStack := c.machine.stack

/-- The lowest `low` words of `start` are kept. -/
def Rests (start : OperandStack) (low : Nat) (c : Conversation σ) : Prop := start.Above low (stackOf c)

theorem rests_of_keeps {x : Exec σ α} (hx : Keeps stackOf x) : Upholds (Rests start low) x :=
  hx.upholds (start.Above low)

theorem rests_current : Upholds (Rests start low) (current (σ := σ)) := rests_of_keeps fun _ => rfl

theorem rests_modify {f : Machine → Machine} (hf : ∀ m, (f m).stack = m.stack) :
    Upholds (Rests start low) (modify (σ := σ) f) := rests_of_keeps fun c => hf c.machine

theorem rests_lift (result : Except MachineFault α) :
    Upholds (Rests start low) (lift (σ := σ) result) := by
  refine rests_of_keeps fun c => ?_
  cases result <;> rfl

theorem rests_push (hsize : start.slots.size < UInt16.size) (value : UInt16) :
    Upholds (Rests start low) (push (σ := σ) value) := by
  intro c hc
  unfold push
  split
  · rename_i hslot
    exact hc.extend hsize hslot value
  · exact hc

theorem rests_pushLocals (hsize : start.slots.size < UInt16.size) (count : Nat) :
    Upholds (Rests start low) (pushLocals (σ := σ) count) := by
  induction count with
  | zero => exact rests_of_keeps (keeps_pure _)
  | succ count ih => exact (rests_push hsize _).bind fun _ => ih

theorem rests_callIntrinsic (host : Host σ) (pos id : UInt16) :
    Upholds (Rests start low) (callIntrinsic host pos id) := by
  refine rests_current.bind fun m => ?_
  split
  · exact rests_of_keeps (keeps_throw _)
  · dsimp only
    split
    · exact (rests_lift _).bind fun _ => rests_modify fun _ => rfl
    · exact rests_of_keeps fun _ => rfl

/-- With `count` words of `start` taken off, a computation takes `more` off, and puts others in their
place. -/
def Trades (start : OperandStack) (count more : Nat) (x : Exec σ α) : Prop :=
  ∀ c, start.Lowered count (stackOf c) →
    start.Spares (start.depth - (count + more)) none (stackOf (final (x c)))

/-- What takes no words off leaves alone those that are there. -/
theorem trades_of_rests {x : Exec σ α} (hx : Upholds (Rests start (start.depth - count)) x) :
    Trades start count 0 x := fun c hc => (hx c hc.above).spares

theorem Trades.pop {more : Nat} {f : UInt16 → Exec σ α}
    (hf : ∀ value, Trades start (count + 1) more (f value)) :
    Trades start count (more + 1) (pop >>= f) := by
  intro c hc
  cases hpop : c.machine.stack.pop with
  | error fault =>
    rw [bind_of_error (pop_of_error hpop)]
    exact spares_of_slots_eq hc.slots
  | ok popped =>
    obtain ⟨value, stack⟩ := popped
    rw [pop_bind_of_ok hpop]
    have hvalue := hf value (c.withStack stack) (hc.pop hpop)
    rwa [Nat.add_assoc, Nat.add_comm 1 more] at hvalue

/-- The number of words that an opcode takes off the stack.  A return takes off the return address, unless
it is that of the outermost function. -/
def pops (m : Machine) : Opcode → Nat
  | .add | .mul | .sub | .div | .mod | .or | .and | .testGt | .testGe | .testLt | .testLe
  | .testEq | .testNe | .swap | .sto | .offset => 2
  | .not | .neg | .beq | .bne | .pop | .popBp | .addSp | .fetchm | .saveReg | .sayOp => 1
  | .ret => if m.depth ≤ 1 then 0 else 1
  | .nop | .start | .respondOp | .jmp | .bra | .call | .calli | .pushi | .pushiEff | .pushBp
  | .spToBp | .bpToSp | .pushReg | .strCmp | .exitOp => 0

theorem final_bind_pure {β : Type} (x : Exec σ α) (b : β) (c : Conversation σ) :
    final ((x >>= fun _ => pure b) c) = final (x c) := by
  cases h : x c with
  | ok a c₁ => rw [bind_of_ok h, pure_apply, final_ok, final_ok]
  | error fault c₁ => rw [bind_of_error h, final_error, final_error]

theorem Trades.bind_pure {β : Type} {more : Nat} {x : Exec σ α} (hx : Trades start count more x) (b : β) :
    Trades start count more (x >>= fun _ => pure b) := by
  intro c hc
  rw [final_bind_pure]
  exact hx c hc

theorem trades_fetchValue (host : Host σ) (hsize : start.slots.size < UInt16.size) :
    Trades start 0 1 (fetchValue host) := by
  refine Trades.pop fun address => trades_of_rests ?_
  refine rests_current.bind fun m => (rests_lift _).bind fun value => ?_
  split
  · exact Upholds.bind (rests_of_keeps fun _ => rfl) fun _ => rests_push hsize _
  · exact rests_push hsize _

theorem trades_speak (host : Host σ) : Trades start 0 1 (speak host) :=
  Trades.pop fun _ => trades_of_rests (rests_current.bind fun _ => rests_of_keeps fun _ => rfl)

/-- The instructions that work on the top of the stack only, and not by the number of open calls. -/
theorem trades_perform (host : Host σ) (hsize : start.slots.size < UInt16.size) (m : Machine)
    (pos : UInt16) {opcode : Opcode} (operand : UInt16) (hsto : opcode ≠ .sto) (hret : opcode ≠ .ret)
    (hbpToSp : opcode ≠ .bpToSp) :
    Trades start 0 (m.pops opcode) (perform host pos opcode operand) := by
  cases opcode
  case sto => exact absurd rfl hsto
  case ret => exact absurd rfl hret
  case bpToSp => exact absurd rfl hbpToSp
  all_goals
    dsimp only [perform, pops]
    repeat' with_reducible first
      | exact (trades_fetchValue host hsize).bind_pure _
      | exact (trades_speak host).bind_pure _
      | refine Trades.pop fun _ => ?_
      | refine trades_of_rests ?_
      | refine Upholds.bind ?_ fun _ => ?_
      | exact rests_of_keeps (keeps_pure _)
      | exact rests_of_keeps (keeps_throw _)
      | exact rests_current
      | exact rests_push hsize _
      | exact rests_pushLocals hsize _
      | exact rests_callIntrinsic host _ _
      | split
      | (refine rests_modify fun _ => ?_; rfl)

theorem spares_returnFlow (c : Conversation σ) :
    (stackOf c).Spares ((stackOf c).depth - c.machine.pops .ret) none
      (stackOf (final (returnFlow c))) := by
  unfold returnFlow
  rw [current_bind]
  by_cases hdepth : c.machine.depth ≤ 1
  · rw [if_pos hdepth]
    exact spares_of_slots_eq rfl
  · rw [if_neg hdepth]
    have hpops : c.machine.pops .ret = 0 + 1 := if_neg hdepth
    have htrades : Trades (stackOf c) 0 1 (do
        let caller ← pop
        pure (.goto (caller + 1)) : Exec σ Flow) :=
      Trades.pop fun _ => trades_of_rests (rests_of_keeps (keeps_pure _))
    rw [hpops]
    exact htrades { c with machine := { c.machine with depth := c.machine.depth - 1 } }
      (Lowered.refl _)

theorem slots_onStack_setSp (sp : UInt16) (c : Conversation σ) :
    (stackOf (final (onStack (·.setSp sp) c))).slots = (stackOf c).slots := by
  unfold onStack
  split
  · rename_i heq
    exact slots_of_setSp heq
  · rfl

/-- Carrying out any instruction but a store leaves alone what lies below the words that it takes off the
stack, and what lies above the stack. -/
theorem spares_perform (host : Host σ) {c : Conversation σ} (hsize : slotCount c < UInt16.size)
    (pos : UInt16) {opcode : Opcode} (operand : UInt16) (hsto : opcode ≠ .sto) :
    (stackOf c).Spares ((stackOf c).depth - c.machine.pops opcode) none
      (stackOf (final (perform host pos opcode operand c))) := by
  by_cases hret : opcode = .ret
  · subst hret
    exact spares_returnFlow c
  by_cases hbpToSp : opcode = .bpToSp
  · subst hbpToSp
    refine spares_of_slots_eq ?_
    dsimp only [perform]
    rw [current_bind, final_bind_pure, slots_onStack_setSp]
  have htrades := trades_perform host hsize c.machine pos operand hsto hret hbpToSp c (Lowered.refl _)
  rwa [Nat.zero_add] at htrades

/-! ## The words that are taken off are there -/

/-- A computation that succeeds had so many words on the stack. -/
def Needs (count : Nat) (x : Exec σ α) : Prop :=
  ∀ c a c', x c = .ok a c' → count ≤ (stackOf c).depth

theorem needs_zero (x : Exec σ α) : Needs 0 x := fun _ _ _ _ => Nat.zero_le _

theorem Needs.bind {β : Type} {x : Exec σ α} {f : α → Exec σ β} (hx : Needs count x) :
    Needs count (x >>= f) := by
  intro c b c' h
  obtain ⟨a, c₁, hxc, -⟩ := bind_eq_ok.1 h
  exact hx c a c₁ hxc

theorem Needs.pop {f : UInt16 → Exec σ α} (hf : ∀ value, Needs count (f value)) :
    Needs (count + 1) (pop >>= f) := by
  intro c a c' h
  cases hpop : c.machine.stack.pop with
  | error fault => cases (bind_of_error (pop_of_error hpop)).symm.trans h
  | ok popped =>
    obtain ⟨value, stack⟩ := popped
    have hrest := hf value (c.withStack stack) a c' ((pop_bind_of_ok hpop).symm.trans h)
    have hdepth := ((Lowered.refl (stackOf c)).pop hpop).depth
    change count ≤ stack.depth at hrest
    omega

theorem needs_fetchValue (host : Host σ) : Needs 1 (fetchValue host) :=
  Needs.pop fun _ => needs_zero _

theorem needs_storeValue (host : Host σ) : Needs 2 (storeValue host) :=
  Needs.pop fun _ => Needs.pop fun _ => needs_zero _

theorem needs_speak (host : Host σ) : Needs 1 (speak host) := Needs.pop fun _ => needs_zero _

theorem pops_le_depth {host : Host σ} {pos operand : UInt16} {opcode : Opcode} {flow : Flow}
    {c c' : Conversation σ} (h : perform host pos opcode operand c = .ok flow c') :
    c.machine.pops opcode ≤ (stackOf c).depth := by
  by_cases hret : opcode = .ret
  · subst hret
    rcases perform_ret h with ⟨hdepth, -⟩ | ⟨hdepth, caller, stack, hpop, -⟩
    · rw [pops, if_pos hdepth]
      exact Nat.zero_le _
    · rw [pops, if_neg (by omega)]
      have := ((Lowered.refl (stackOf c)).pop hpop).depth
      omega
  suffices hneeds : Needs (c.machine.pops opcode) (perform host pos opcode operand) from
    hneeds c flow c' h
  cases opcode
  case ret => exact absurd rfl hret
  all_goals
    dsimp only [perform, pops]
    repeat' with_reducible first
      | exact needs_zero _
      | refine Needs.pop fun _ => ?_
      | exact (needs_fetchValue host).bind
      | exact (needs_storeValue host).bind
      | exact (needs_speak host).bind

/-! ## Global writes -/

/-- The writes that the host has noted. -/
def notedWrites (c : Conversation (σ × List HostCall)) : List GlobalAccess :=
  c.host.2.filterMap HostCall.write?

variable (host : Host σ)

theorem steady_noting (writes : List GlobalAccess) :
    Steady host.noting fun state => state.2.filterMap HostCall.write? = writes where
  say _ _ _ h := by rw [Host.noting, List.filterMap_append, h]; exact List.append_nil _
  invoke _ _ h := by rw [Host.noting, List.filterMap_append, h]; exact List.append_nil _
  readGlobal _ _ h := by rw [Host.noting, List.filterMap_append, h]; exact List.append_nil _

/-- Only stores announce writes. -/
theorem unwritten_perform (pos : UInt16) {opcode : Opcode} (operand : UInt16) (hsto : opcode ≠ .sto) :
    Keeps notedWrites (perform host.noting pos opcode operand) := fun c =>
  steady_perform (steady_noting host (notedWrites c)) pos operand hsto c rfl

/-! ## The frame of a step -/

/-- The opcode of the instruction that the next step carries out. -/
def nextOpcode? (m : Machine) : Option Opcode :=
  if m.finished then none
  else
    match fetch m.image.code m.ip with
    | .ok (opcode, _) => some opcode
    | .error _ => none

/-- The number of words that the next step takes off the stack. -/
def popCount (m : Machine) : Nat :=
  match m.nextOpcode? with
  | some opcode => m.pops opcode
  | none => 0

/-- The address and the value of the next step's store, if it stores. -/
def store? (m : Machine) : Option (UInt16 × UInt16) :=
  if m.nextOpcode? = some .sto then m.stack.storeOperands? else none

/-- The write that the host learns of in the next step. -/
def globalWrite? (m : Machine) : Option GlobalAccess :=
  m.store?.bind fun (address, value) => m.image.globalWrite? address value

/-- What a step that does not fault leaves alone, and what it lets the host know.  The words that it takes
off the stack are there; slots below them and above the stack are as they were, but for the one that it
stores to; and the host learns of a store if its address is that of a global, and of the value that the slot
then holds. -/
structure Framed (c c' : Conversation σ) : Prop where
  pops : c.machine.popCount ≤ c.machine.stack.depth
  slots : ∀ index, index < c.machine.stack.depth - c.machine.popCount ∨
      max c.machine.stack.depth c'.machine.stack.depth ≤ index →
    (∀ address value, c.machine.store? = some (address, value) → index ≠ address.toNat) →
    c'.machine.stack.slots[index]? = c.machine.stack.slots[index]?
  stored : ∀ address value, c.machine.store? = some (address, value) →
    c'.machine.stack.get address = .ok value
  announced : (stepCalls host c).filterMap HostCall.write? = c.machine.globalWrite?.toList

variable {host} {c c' : Conversation σ}

section Fetched

variable {opcode : Opcode} {operand : UInt16} (hgoing : c.machine.finished = false)
  (hfetch : fetch c.machine.image.code c.machine.ip = .ok (opcode, operand))
include hgoing hfetch

theorem nextOpcode?_of_fetched : c.machine.nextOpcode? = some opcode := by
  rw [nextOpcode?, hgoing, hfetch]
  rfl

theorem popCount_of_fetched : c.machine.popCount = c.machine.pops opcode := by
  rw [popCount, nextOpcode?_of_fetched hgoing hfetch]

variable (host) in
/-- Behind the instruction that it carries out, a step changes neither the stack nor the host. -/
theorem final_step_of_fetched :
    stackOf (final (step host c)) = stackOf (final (perform host c.machine.ip opcode operand c)) ∧
      (final (step host c)).host = (final (perform host c.machine.ip opcode operand c)).host := by
  have hstep := stepped host c
  generalize step host c = result at hstep
  cases hstep with
  | refused hfinished => cases hgoing.symm.trans hfinished
  | unfetched _ hnone => cases hfetch.symm.trans hnone
  | faulted _ hsome hperform =>
    cases hfetch.symm.trans hsome
    rw [hperform]
    exact ⟨rfl, rfl⟩
  | went _ hsome hperform _ =>
    cases hfetch.symm.trans hsome
    rw [hperform]
    exact ⟨rfl, rfl⟩
  | ended _ hsome hperform =>
    cases hfetch.symm.trans hsome
    rw [hperform]
    exact ⟨rfl, rfl⟩

end Fetched

theorem step_eq_ok {outcome : Step} (h : step host c = .ok outcome c') :
    c.machine.finished = false ∧ ∃ opcode operand flow c₁,
      fetch c.machine.image.code c.machine.ip = .ok (opcode, operand) ∧
      perform host c.machine.ip opcode operand c = .ok flow c₁ := by
  have hstep := stepped host c
  rw [h] at hstep
  cases hstep with
  | went hgoing hfetch hperform _ => exact ⟨hgoing, _, _, _, _, hfetch, hperform⟩
  | ended hgoing hfetch hperform => exact ⟨hgoing, _, _, _, _, hfetch, hperform⟩

variable (host) in
/-- A store of a value at an address: the slot is there, and is written after the host was told. -/
structure Stores (c c' : Conversation σ) (address value : UInt16) : Prop where
  operands : c.machine.stack.storeOperands? = some (address, value)
  inBounds : address.toNat < slotCount c
  slots : (stackOf c').slots = (stackOf c).slots.setIfInBounds address.toNat value
  told : c'.host = host.told (c.machine.image.globalWrite? address value) c.host

theorem stores_of_perform {pos operand : UInt16} {flow : Flow}
    (h : perform host pos .sto operand c = .ok flow c') : ∃ address value, Stores host c c' address value := by
  obtain ⟨_, c₁, hstore, hflow⟩ := bind_eq_ok.1 h
  cases (pure_eq_ok.1 hflow).2
  obtain ⟨address, value, stack₁, stack, hvalue, haddress, hoperands, hslot, rfl⟩ :=
    storeValue_eq_ok hstore
  have hslots : stack.slots = c.machine.stack.slots :=
    (slots_of_pop haddress).trans (slots_of_pop hvalue)
  refine ⟨address, value, hoperands, ?_, ?_, rfl⟩
  · have hlt := hasSlot_iff.1 hslot
    rwa [hslots] at hlt
  · change stack.slots.setIfInBounds address.toNat value = _
    rw [hslots]
    rfl

theorem filterMap_write? (writes : List GlobalAccess) :
    ([] ++ writes.map HostCall.writeGlobal).filterMap HostCall.write? = writes := by
  rw [List.nil_append, List.filterMap_map]
  exact List.filterMap_some

/-- The noting host notes the write of a global. -/
theorem announced_of_stores {pos operand : UInt16} {flow : Flow}
    (h : perform host pos .sto operand c = .ok flow c') {address value : UInt16}
    (hstores : Stores host c c' address value) :
    notedWrites (final (perform host.noting pos .sto operand c.noted)) =
      (c.machine.image.globalWrite? address value).toList := by
  obtain ⟨c₁, hnoting, -⟩ := (mirrors_perform host pos .sto operand).of_ok h
  obtain ⟨address', value', hnoted⟩ := stores_of_perform hnoting
  cases hstores.operands.symm.trans hnoted.operands
  rw [hnoting, final_ok, notedWrites, hnoted.told, Host.told_noting]
  exact filterMap_write? _

/-- A step that does not fault leaves alone what its instruction has no business with. -/
theorem framed_step (hsize : slotCount c < UInt16.size) {outcome : Step}
    (h : step host c = .ok outcome c') : Framed host c c' := by
  obtain ⟨hgoing, opcode, operand, flow, c₁, hfetch, hperform⟩ := step_eq_ok h
  have hnext := nextOpcode?_of_fetched hgoing hfetch
  have hpop := popCount_of_fetched hgoing hfetch
  have hstack := (final_step_of_fetched host hgoing hfetch).1
  have hcalls : (stepCalls host c).filterMap HostCall.write? =
      notedWrites (final (perform host.noting c.machine.ip opcode operand c.noted)) :=
    congrArg (fun state : σ × List HostCall => state.2.filterMap HostCall.write?)
      (final_step_of_fetched host.noting (c := c.noted) hgoing hfetch).2
  have hpops := pops_le_depth hperform
  rw [← hpop] at hpops
  rw [h] at hstack
  by_cases hsto : opcode = .sto
  · subst hsto
    obtain ⟨address, value, hstores⟩ := stores_of_perform hperform
    have hstore : c.machine.store? = some (address, value) := by
      rw [store?, if_pos hnext, hstores.operands]
    have hslots := hstores.slots
    rw [hperform] at hstack
    rw [← show stackOf c' = stackOf c₁ from hstack] at hslots
    refine ⟨hpops, fun index _ hne => ?_, fun address' value' hstore' => ?_, ?_⟩
    · exact (congrArg (·[index]?) hslots).trans
        (Array.getElem?_setIfInBounds_ne (Ne.symm (hne address value hstore)))
    · cases hstore.symm.trans hstore'
      refine get_eq_ok.2 ((congrArg (·[address.toNat]?) hslots).trans ?_)
      exact Array.getElem?_setIfInBounds_self_of_lt hstores.inBounds
    · rw [hcalls, announced_of_stores hperform hstores, globalWrite?, hstore]
      rfl
  · have hstore : c.machine.store? = none := by
      rw [store?, hnext, if_neg (by simpa using hsto)]
    have hspares := spares_perform host hsize c.machine.ip operand hsto
    rw [← hstack, ← hpop] at hspares
    refine ⟨hpops, fun index hindex _ => ?_, fun address value hsome => ?_, ?_⟩
    · exact hspares.slots index hindex fun _ hnone => by cases hnone
    · cases hstore.symm.trans hsome
    · rw [hcalls, unwritten_perform host c.machine.ip operand hsto c.noted, globalWrite?, hstore]
      rfl

/-- A step that stores announces the write of a global to the host, and changes nothing else about it.  Any
other step upholds what the host upholds as long as it observes no write. -/
theorem host_of_step {outcome : Step} (h : step host c = .ok outcome c') :
    (∃ address value, c.machine.store? = some (address, value) ∧
      c'.host = host.told (c.machine.image.globalWrite? address value) c.host) ∨
    c.machine.store? = none ∧ ∀ p, Steady host p → p c.host → p c'.host := by
  obtain ⟨hgoing, opcode, operand, flow, c₁, hfetch, hperform⟩ := step_eq_ok h
  have hnext := nextOpcode?_of_fetched hgoing hfetch
  have hhost := (final_step_of_fetched host hgoing hfetch).2
  rw [h, hperform, final_ok, final_ok] at hhost
  by_cases hsto : opcode = .sto
  · subst hsto
    obtain ⟨address, value, hstores⟩ := stores_of_perform hperform
    refine Or.inl ⟨address, value, ?_, hhost.trans hstores.told⟩
    rw [store?, if_pos hnext, hstores.operands]
  · refine Or.inr ⟨?_, fun p hsteady hp => ?_⟩
    · rw [store?, hnext, if_neg (by simpa using hsto)]
    · have hupheld := steady_perform hsteady c.machine.ip operand hsto c hp
      rw [hperform] at hupheld
      rw [hhost]
      exact hupheld

/-- A step that faults, as well, leaves alone what lies below the words that its instruction takes off the
stack, and a store then writes nothing. -/
theorem slots_of_fault (hsize : slotCount c < UInt16.size) (hfit : GlobalsFit c) {fault : MachineFault}
    (h : step host c = .error fault c') :
    (stackOf c).Spares ((stackOf c).depth - c.machine.popCount) none (stackOf c') := by
  have hstep := stepped host c
  rw [h] at hstep
  cases hstep with
  | refused hfinished => exact spares_of_slots_eq rfl
  | unfetched hgoing hfetch => exact spares_of_slots_eq rfl
  | @faulted opcode operand _ c₁ hgoing hfetch hperform =>
    rw [popCount_of_fetched hgoing hfetch]
    by_cases hsto : opcode = .sto
    · subst hsto
      refine spares_of_slots_eq ?_
      cases hstore : storeValue host c with
      | ok _ c₂ => cases (bind_of_ok hstore).symm.trans hperform
      | error fault₁ c₂ =>
        cases (bind_of_error hstore).symm.trans hperform
        obtain ⟨stack, rfl, hslots⟩ := storeValue_eq_error hfit hstore
        exact hslots
    · have hspares := spares_perform host hsize c.machine.ip operand hsto
      rwa [hperform] at hspares

/-! ## The globals in the course of steps -/

/-- The slots of the globals. -/
def globalRegion (m : Machine) : List UInt16 :=
  m.stack.slots.toList.take m.image.reservedGlobals.toNat

/-- A region of slots with writes made to it in turn. -/
def overlay (region : List UInt16) (writes : List GlobalAccess) : List UInt16 :=
  writes.foldl (fun region access => region.set access.slot.toNat access.value) region

/-- The next step takes nothing off the stack that belongs to the globals. -/
def ClearOfGlobals (m : Machine) : Prop :=
  m.finished = false → m.image.reservedGlobals.toNat + m.popCount ≤ m.stack.depth

instance (m : Machine) : Decidable (ClearOfGlobals m) :=
  inferInstanceAs (Decidable (_ → _))

theorem getElem?_globalRegion (m : Machine) (index : Nat) :
    m.globalRegion[index]? =
      if index < m.image.reservedGlobals.toNat then m.stack.slots[index]? else none := by
  rw [globalRegion, List.getElem?_take, Array.getElem?_toList]

theorem globalRegion_congr {m m' : Machine} (himage : m'.image = m.image)
    (hslots : ∀ index < m.image.reservedGlobals.toNat, m'.stack.slots[index]? = m.stack.slots[index]?) :
    m'.globalRegion = m.globalRegion := by
  refine List.ext_getElem? fun index => ?_
  rw [getElem?_globalRegion, getElem?_globalRegion, himage]
  split
  · exact hslots index ‹_›
  · rfl

theorem globalRegion_set {m m' : Machine} (himage : m'.image = m.image)
    (hfit : m.image.reservedGlobals.toNat ≤ m.stack.slots.size) {index : Nat} {value : UInt16}
    (hindex : index < m.image.reservedGlobals.toNat) (hvalue : m'.stack.slots[index]? = some value)
    (hother : ∀ other < m.image.reservedGlobals.toNat, other ≠ index →
      m'.stack.slots[other]? = m.stack.slots[other]?) :
    m'.globalRegion = m.globalRegion.set index value := by
  have hlength : index < m.globalRegion.length := by
    rw [globalRegion, List.length_take, Array.length_toList]
    omega
  refine List.ext_getElem? fun other => ?_
  rw [getElem?_globalRegion, himage]
  by_cases heq : other = index
  · rw [heq, if_pos hindex, List.getElem?_set_self hlength, hvalue]
  · rw [List.getElem?_set_ne (Ne.symm heq), getElem?_globalRegion]
    split
    · exact hother other ‹_› heq
    · rfl

/-- The globals lie below the words that a step takes off. -/
theorem ClearOfGlobals.below {m : Machine} (h : ClearOfGlobals m) (hgoing : m.finished = false) {index : Nat}
    (hindex : index < m.image.reservedGlobals.toNat) : index < m.stack.depth - m.popCount := by
  have hroom := h hgoing
  omega

/-- A step that faults leaves the globals alone. -/
theorem globalRegion_of_fault {fault : MachineFault} (hsize : slotCount c < UInt16.size)
    (hfit : GlobalsFit c) (hclear : ClearOfGlobals c.machine) (hstep : step host c = .error fault c') :
    c'.machine.globalRegion = c.machine.globalRegion := by
  have himage := (lasting_step host c).1
  rw [hstep] at himage
  refine globalRegion_congr himage fun index hindex => ?_
  cases hfinished : c.machine.finished with
  | true =>
    -- A finished machine takes nothing off, and `ClearOfGlobals` says nothing of it.
    cases (step_of_finished hfinished).symm.trans hstep
    rfl
  | false =>
    exact (slots_of_fault hsize hfit hstep).slots index (Or.inl (hclear.below hfinished hindex))
      fun _ hnone => by cases hnone

/-- A step writes to the globals only what it stores, if that belongs there. -/
theorem globalRegion_of_ok {outcome : Step} (hsize : slotCount c < UInt16.size)
    (hfit : GlobalsFit c) (hclear : ClearOfGlobals c.machine) (hstep : step host c = .ok outcome c') :
    c'.machine.globalRegion = overlay c.machine.globalRegion c.machine.globalWrite?.toList := by
  have himage := (lasting_step host c).1
  rw [hstep] at himage
  have hframed := framed_step hsize hstep
  have hgoing := (step_eq_ok hstep).1
  have hslots : ∀ index < c.machine.image.reservedGlobals.toNat,
      (∀ address value, c.machine.store? = some (address, value) → index ≠ address.toNat) →
      c'.machine.stack.slots[index]? = c.machine.stack.slots[index]? := fun index hindex =>
    hframed.slots index (Or.inl (hclear.below hgoing hindex))
  rw [globalWrite?]
  cases hstore : c.machine.store? with
  | none =>
    refine globalRegion_congr himage fun index hindex => hslots index hindex ?_
    intro address value hsome
    cases hstore.symm.trans hsome
  | some operands =>
    obtain ⟨address, value⟩ := operands
    have hother : ∀ index < c.machine.image.reservedGlobals.toNat, index ≠ address.toNat →
        c'.machine.stack.slots[index]? = c.machine.stack.slots[index]? := by
      intro index hindex hne
      refine hslots index hindex fun address' value' hsome => ?_
      cases hstore.symm.trans hsome
      exact hne
    rw [Option.bind_some]
    dsimp only
    by_cases hglobal : address < c.machine.image.reservedGlobals
    · rw [Image.globalWrite?, if_pos hglobal]
      exact globalRegion_set himage hfit (UInt16.lt_iff_toNat_lt.1 hglobal)
        (get_eq_ok.1 (hframed.stored address value hstore)) hother
    · rw [Image.globalWrite?, if_neg hglobal]
      refine globalRegion_congr himage fun index hindex => hother index hindex ?_
      rintro rfl
      exact hglobal (UInt16.lt_iff_toNat_lt.2 hindex)

/-- The globals after a step are those before it with the write that the host has learned of made to
them, and the host learns of none if the step faults. -/
theorem globalRegion_step (hsize : slotCount c < UInt16.size) (hfit : GlobalsFit c)
    (hclear : ClearOfGlobals c.machine) :
    (final (step host c)).machine.globalRegion =
      overlay c.machine.globalRegion ((stepCalls host c).filterMap HostCall.write?) := by
  cases hstep : step host c with
  | error fault c' =>
    rw [stepCalls_of_fault hfit hstep, final_error]
    exact globalRegion_of_fault hsize hfit hclear hstep
  | ok outcome c' =>
    rw [(framed_step hsize hstep).announced, final_ok]
    exact globalRegion_of_ok hsize hfit hclear hstep

theorem overlay_append (region : List UInt16) (writes later : List GlobalAccess) :
    overlay region (writes ++ later) = overlay (overlay region writes) later := List.foldl_append

/-- Every step leaves alone what its instruction has no business with, and lets the host know of the store of
a global and of nothing else.  So where no step takes a global off the stack, the globals are those of the
start with the writes made to them that the host has learned of, in order. -/
theorem globals_are_announced {globals : List UInt16} {before begin : Conversation σ}
    (hsize : before.machine.stack.slots.size < UInt16.size)
    (hinit : init host globals before = .ok () begin) :
    (∀ calls c, Trace host (fun _ => True) begin calls c →
      ∀ outcome c', step host c = .ok outcome c' → Framed host c c') ∧
    ∀ calls c, Trace host ClearOfGlobals begin calls c →
      c.machine.globalRegion =
        overlay begin.machine.globalRegion (calls.filterMap HostCall.write?) := by
  obtain ⟨hfit, hcount⟩ := fit_of_init hinit
  have hbegin : slotCount begin < UInt16.size := by
    rw [hcount]
    exact hsize
  constructor
  · intro calls c htrace outcome c' hstep
    refine framed_step ?_ hstep
    rw [htrace.lasting.2]
    exact hbegin
  · intro calls c htrace
    induction htrace with
    | begin => rfl
    | @step calls c htrace hclear ih =>
      have hslots : slotCount c < UInt16.size := by
        rw [htrace.lasting.2]
        exact hbegin
      rw [globalRegion_step hslots (htrace.globalsFit hfit) hclear, List.filterMap_append,
        overlay_append, ih]

/-- A conversation with one global, in which 7 is stored. -/
def oneStore : Image := { Image.ofCode #[22, 0, 22, 7, 32] with reservedGlobals := 1 }

/-- A machine with a small stack, before it is started. -/
def oneStoreMachine : Machine := { ofImage oneStore [] with stack := .ofSize 4 }

theorem steps_oneStore :
    ∃ begin c₁ c₂ : Conversation Unit,
      init Host.silent [] ⟨oneStoreMachine, ()⟩ = .ok () begin ∧
      final (step Host.silent begin) = c₁ ∧ final (step Host.silent c₁) = c₂ ∧
      stepCalls Host.silent begin = [] ∧ stepCalls Host.silent c₁ = [] ∧
      stepCalls Host.silent c₂ = [.writeGlobal ⟨0, none, 7⟩] ∧
      ClearOfGlobals begin.machine ∧ ClearOfGlobals c₁.machine ∧ ClearOfGlobals c₂.machine ∧
      c₂.machine.store? = some (0, 7) ∧ begin.machine.globalRegion = [0] :=
  ⟨_, _, _, rfl, rfl, rfl, rfl, rfl, rfl, by decide, by decide, by decide, rfl, rfl⟩

theorem globals_are_announced_oneStore :
    ∃ (begin c : Conversation Unit) (calls : List HostCall),
      init Host.silent [] ⟨oneStoreMachine, ()⟩ = .ok () begin ∧
      Trace Host.silent ClearOfGlobals begin calls c ∧
      calls.filterMap HostCall.write? = [⟨0, none, 7⟩] ∧
      begin.machine.globalRegion = [0] ∧ c.machine.globalRegion = [7] := by
  obtain ⟨begin, c₁, c₂, hinit, h₁, h₂, hcalls, hcalls₁, hcalls₂, hclear, hclear₁, hclear₂, -, hregion⟩ :=
    steps_oneStore
  have hsize : oneStoreMachine.stack.slots.size < UInt16.size := by decide
  have hstart : Trace Host.silent ClearOfGlobals begin [] begin := .begin
  have htrace := hstart.step hclear
  rw [h₁, hcalls] at htrace
  have htrace₂ := htrace.step hclear₁
  rw [h₂, hcalls₁] at htrace₂
  have htrace₃ := htrace₂.step hclear₂
  rw [hcalls₂] at htrace₃
  have hglobals := (globals_are_announced hsize hinit).2 _ _ htrace₃
  rw [hregion] at hglobals
  exact ⟨begin, _, _, hinit, htrace₃, rfl, hregion, hglobals⟩

end Machine

end Parley
