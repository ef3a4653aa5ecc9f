import Parley.Proofs.Machine.Fault
set_option autoImplicit false

/-!
# The operand stack is bounded

The elements of an operand stack are its slots up to the stack pointer, which is 0xffff when there are none; so a
stack of 65536 slots could not tell whether it is full or empty.  Any smaller stack keeps its pointer below the number
of its slots through all operations.  Then a push adds an element at the end exactly if there is a slot left, and a pop
takes the last one off exactly if there is one.
-/

namespace Parley

namespace OperandStack

variable {stack stack' : OperandStack} {size : Nat} {value : UInt16}

/-- A stack of `size` slots that is empty or has its topmost element in one of them. -/
structure Bounded (size : Nat) (stack : OperandStack) : Prop where
  slots : stack.slots.size = size
  sp : stack.sp = emptySp ∨ stack.sp.toNat < size

theorem push_eq_ok : stack.push value = .ok stack' ↔
    (stack.sp + 1).toNat < stack.slots.size ∧ stack' = stack.extend value := by
  rw [push, ← hasSlot_iff]
  split
  · rename_i hslot
    simp [hslot, eq_comm]
  · rename_i hslot
    simp [hslot]

theorem set_eq_ok {index : UInt16} : stack.set index value = .ok stack' ↔
    index.toNat < stack.slots.size ∧ stack' = stack.write index value := by
  rw [set, ← hasSlot_iff]
  split
  · rename_i hslot
    simp [hslot, eq_comm]
  · rename_i hslot
    simp [hslot]

theorem setSp_eq_ok {sp : UInt16} : stack.setSp sp = .ok stack' ↔
    (sp = emptySp ∨ sp.toNat < stack.slots.size) ∧ stack' = { stack with sp } := by
  rw [setSp]
  split
  · rename_i hsp
    simp [hsp, eq_comm]
  · rename_i hsp
    simp [hsp]

/-! ## What keeps a stack bounded -/

theorem bounded_ofSize (size : Nat) : (ofSize size).Bounded size :=
  ⟨Array.size_replicate, Or.inl rfl⟩

theorem Bounded.push (h : stack.Bounded size) (hpush : stack.push value = .ok stack') : stack'.Bounded size := by
  obtain ⟨hlt, rfl⟩ := push_eq_ok.1 hpush
  rw [h.slots] at hlt
  exact ⟨Array.size_setIfInBounds.trans h.slots, Or.inr hlt⟩

theorem Bounded.set {index : UInt16} (h : stack.Bounded size) (hset : stack.set index value = .ok stack') :
    stack'.Bounded size := by
  obtain ⟨-, rfl⟩ := set_eq_ok.1 hset
  exact ⟨Array.size_setIfInBounds.trans h.slots, h.sp⟩

theorem Bounded.setSp {sp : UInt16} (h : stack.Bounded size) (hset : stack.setSp sp = .ok stack') :
    stack'.Bounded size := by
  obtain ⟨hsp, rfl⟩ := setSp_eq_ok.1 hset
  rw [h.slots] at hsp
  exact ⟨h.slots, hsp⟩

theorem Bounded.pop (h : stack.Bounded size) (hpop : stack.pop = .ok (value, stack')) : stack'.Bounded size := by
  obtain ⟨hne, -, rfl⟩ := pop_eq_ok.1 hpop
  refine ⟨h.slots, ?_⟩
  have hlt := h.sp.resolve_left hne
  by_cases hzero : stack.sp = 0
  · -- the last element is taken off, and the pointer wraps around to that of the empty stack
    left
    simp only [hzero]
    rfl
  · right
    have hpos : stack.sp.toNat ≠ 0 := fun heq => hzero (UInt16.toNat_inj.1 heq)
    have hpred : (stack.sp - 1).toNat = stack.sp.toNat - 1 :=
      UInt16.toNat_sub_of_le _ _ (UInt16.le_iff_toNat_le.2 (Nat.one_le_iff_ne_zero.2 hpos))
    simp only [hpred]
    omega

theorem Bounded.reset (h : stack.Bounded size) : stack.reset.Bounded size := by
  rw [OperandStack.reset, h.slots]
  exact bounded_ofSize size

/-! ## The elements -/

theorem depth_emptySp (h : stack.sp = emptySp) : stack.depth = 0 := by
  rw [depth, h]
  rfl

theorem depth_pos_iff : 0 < stack.depth ↔ stack.sp ≠ emptySp := by
  constructor
  · intro hpos hempty
    rw [depth_emptySp hempty] at hpos
    exact Nat.lt_irrefl 0 hpos
  · intro hne
    rw [depth_of_ne_emptySp hne]
    exact Nat.succ_pos _

theorem Bounded.depth_le (h : stack.Bounded size) : stack.depth ≤ size := by
  by_cases hempty : stack.sp = emptySp
  · rw [depth_emptySp hempty]
    exact Nat.zero_le size
  · rw [depth_of_ne_emptySp hempty]
    exact h.sp.resolve_left hempty

theorem Bounded.length_contents (h : stack.Bounded size) : stack.contents.length = stack.depth := by
  rw [contents, List.length_take, Array.length_toList, h.slots, Nat.min_eq_left h.depth_le]

theorem Bounded.exists_push (h : stack.Bounded size) :
    (∃ stack', stack.push value = .ok stack') ↔ stack.depth < size := by
  simp only [push_eq_ok, exists_and_left, exists_eq, and_true, h.slots]
  exact Iff.rfl

/-- A push adds an element.  This is where the stack must not have 65536 slots: with a value in the last of them it
would be empty again. -/
theorem contents_push (hsize : stack.slots.size < UInt16.size) (hpush : stack.push value = .ok stack') :
    stack'.contents = stack.contents ++ [value] := by
  obtain ⟨hlt, rfl⟩ := push_eq_ok.1 hpush
  have hdepth : (stack.extend value).depth = stack.depth + 1 := depth_extend (Nat.lt_of_le_of_lt hlt hsize)
  have hslots : (stack.extend value).slots.toList = stack.slots.toList.set stack.depth value :=
    Array.toList_setIfInBounds ..
  have htop : (stack.slots.toList.set stack.depth value)[stack.depth]? = some value := by
    rw [List.getElem?_set_self]
    rwa [Array.length_toList]
  rw [contents, contents, hdepth, hslots, List.take_add_one, List.take_set_of_le (Nat.le_refl _), htop]
  rfl

theorem Bounded.exists_pop (h : stack.Bounded size) :
    (∃ value stack', stack.pop = .ok (value, stack')) ↔ 0 < stack.depth := by
  rw [depth_pos_iff]
  constructor
  · rintro ⟨value, stack', hpop⟩
    exact (pop_eq_ok.1 hpop).1
  · intro hne
    have hlt : stack.sp.toNat < stack.slots.size := by
      rw [h.slots]
      exact h.sp.resolve_left hne
    exact ⟨_, _, pop_eq_ok.2 ⟨hne, get_eq_ok.2 (Array.getElem?_eq_getElem hlt), rfl⟩⟩

theorem contents_pop (h : stack.pop = .ok (value, stack')) : stack.contents = stack'.contents ++ [value] := by
  obtain ⟨hne, hget, rfl⟩ := pop_eq_ok.1 h
  have hdepth : ({ stack with sp := stack.sp - 1 } : OperandStack).depth = stack.sp.toNat :=
    congrArg UInt16.toNat (UInt16.sub_add_cancel _ _)
  rw [contents, contents, hdepth, depth_of_ne_emptySp hne, List.take_add_one, Array.getElem?_toList,
    get_eq_ok.1 hget]
  rfl

theorem Bounded.exists_set (h : stack.Bounded size) {index : UInt16} :
    (∃ stack', stack.set index value = .ok stack') ↔ index.toNat < size := by
  simp only [set_eq_ok, exists_and_left, exists_eq, and_true, h.slots]

/-- Only one slot is written. -/
theorem getElem?_slots_set {index : UInt16} (h : stack.set index value = .ok stack') (other : Nat) :
    stack'.slots[other]? = if other = index.toNat then some value else stack.slots[other]? := by
  obtain ⟨hlt, rfl⟩ := set_eq_ok.1 h
  split
  · rename_i heq
    rw [heq]
    exact Array.getElem?_setIfInBounds_self_of_lt hlt
  · rename_i hne
    exact Array.getElem?_setIfInBounds_ne (Ne.symm hne)

end OperandStack

namespace Machine

open Fallible OperandStack

variable {σ : Type} {c c' : Conversation σ} {size : Nat}

/-- What is done to a stack. -/
inductive StackOperation where
  | push (value : UInt16)
  | pop
  | get (index : UInt16)
  | set (index value : UInt16)
  | setSp (sp : UInt16)
  | reset

/-- Carry out an operation on the stack of the machine.  The result is the word that it reads, if it reads one. -/
def operate : StackOperation → Exec σ (Option UInt16)
  | .push value => do
    push value
    pure none
  | .pop => do
    let value ← pop
    pure (some value)
  | .get index => do
    let m ← current
    let value ← lift (m.stack.get index)
    pure (some value)
  | .set index value => do
    write index value
    pure none
  | .setSp sp => do
    onStack (·.setSp sp)
    pure none
  | .reset => do
    modify fun m => { m with stack := m.stack.reset }
    pure none

/-- The conversation after operations on the stack, carried out one after the other whether they fault or not. -/
def operateAll (operations : List StackOperation) (c : Conversation σ) : Conversation σ :=
  operations.foldl (fun c operation => final (operate operation c)) c

/-! ## One operation -/

theorem cleanly_onStack (f : OperandStack → Except MachineFault OperandStack) :
    FaultsCleanly id (onStack (σ := σ) f) := by
  intro c fault c' h
  unfold onStack at h
  split at h
  · cases h
  · cases h
    rfl

theorem cleanly_pop : FaultsCleanly id (pop (σ := σ)) := by
  intro c fault c' h
  unfold pop at h
  split at h
  · cases h
  · cases h
    rfl

theorem keeps_lift {α : Type} (result : Except MachineFault α) : Keeps id (lift (σ := σ) result) := by
  intro c
  cases result <;> rfl

/-- An operation on the stack that faults changes nothing. -/
theorem cleanly_operate (operation : StackOperation) : FaultsCleanly id (operate (σ := σ) operation) := by
  cases operation with
  | push value =>
    have hpush : FaultsCleanly id (push (σ := σ) value) := by
      rw [push_eq]
      exact cleanly_onStack _
    exact hpush.bind_safe fun _ => safe_pure _
  | pop => exact cleanly_pop.bind_safe fun _ => safe_pure _
  | get index =>
    have hcurrent : Keeps id (current (σ := σ)) := fun _ => rfl
    exact hcurrent.bind_faultsCleanly fun m => (keeps_lift _).bind_faultsCleanly fun _ =>
      (keeps_pure _).faultsCleanly
  | set index value =>
    have hwrite : FaultsCleanly id (write (σ := σ) index value) := by
      rw [write_eq]
      exact cleanly_onStack _
    exact hwrite.bind_safe fun _ => safe_pure _
  | setSp sp => exact (cleanly_onStack _).bind_safe fun _ => safe_pure _
  | reset => exact ((safe_modify _).bind fun _ => safe_pure _).faultsCleanly

/-- The stack of the machine is bounded. -/
def StackBounded (size : Nat) (c : Conversation σ) : Prop := c.machine.stack.Bounded size

theorem stackBounded_pure {α : Type} (a : α) : Upholds (StackBounded size) (pure a : Exec σ α) :=
  fun _ hc => hc

theorem stackBounded_onStack {f : OperandStack → Except MachineFault OperandStack}
    (hf : ∀ {stack stack' : OperandStack}, stack.Bounded size → f stack = .ok stack' → stack'.Bounded size) :
    Upholds (StackBounded size) (onStack (σ := σ) f) := by
  intro c hc
  unfold onStack
  split
  · rename_i stack hstack
    exact hf hc hstack
  · exact hc

theorem stackBounded_pop : Upholds (StackBounded size) (pop (σ := σ)) := by
  intro c hc
  unfold pop
  split
  · rename_i value stack hpop
    exact Bounded.pop hc hpop
  · exact hc

/-- Every operation leaves the stack bounded. -/
theorem stackBounded_operate (operation : StackOperation) :
    Upholds (StackBounded size) (operate (σ := σ) operation) := by
  cases operation with
  | push value =>
    have hpush : Upholds (StackBounded size) (push (σ := σ) value) := by
      rw [push_eq]
      exact stackBounded_onStack Bounded.push
    exact hpush.bind fun _ => stackBounded_pure _
  | pop => exact stackBounded_pop.bind fun _ => stackBounded_pure _
  | get index =>
    have hcurrent : Upholds (StackBounded size) (current (σ := σ)) := fun _ hc => hc
    exact hcurrent.bind fun m => ((keeps_lift _).upholds _).bind fun _ => stackBounded_pure _
  | set index value =>
    have hwrite : Upholds (StackBounded size) (write (σ := σ) index value) := by
      rw [write_eq]
      exact stackBounded_onStack Bounded.set
    exact hwrite.bind fun _ => stackBounded_pure _
  | setSp sp => exact (stackBounded_onStack Bounded.setSp).bind fun _ => stackBounded_pure _
  | reset =>
    have hreset : Upholds (StackBounded size) (modify (σ := σ) fun m => { m with stack := m.stack.reset }) :=
      fun _ hc => Bounded.reset hc
    exact hreset.bind fun _ => stackBounded_pure _

/-! ## All operations -/

theorem stackBounded_operateAll (operations : List StackOperation) {c : Conversation σ} (hc : StackBounded size c) :
    StackBounded size (operateAll operations c) := by
  induction operations generalizing c with
  | nil => exact hc
  | cons operation rest ih => exact ih (stackBounded_operate operation c hc)

/-- After any operations on an empty stack of at most 65535 slots: the stack has as many slots and is empty or has its
topmost element in one of them, and there are as many elements as its depth says.  A push is possible exactly if there
is a slot left and adds the value as the last element, a pop exactly if there is an element and takes the last one
off.  A slot that is there can be written, and then the others are as before.  An operation that faults changes
nothing. -/
theorem stack_of_operations {size : Nat} (hsize : size ≤ 65535) (m : Machine) (state : σ)
    (operations : List StackOperation) :
    let c : Conversation σ := operateAll operations ⟨{ m with stack := .ofSize size }, state⟩
    let stack := c.machine.stack
    (stack.slots.size = size ∧ (stack.sp = emptySp ∨ stack.sp.toNat < size) ∧
      stack.contents.length = stack.depth) ∧
    (∀ value, ((∃ stack', stack.push value = .ok stack') ↔ stack.depth < size) ∧
      ∀ stack', stack.push value = .ok stack' → stack'.contents = stack.contents ++ [value]) ∧
    (((∃ value stack', stack.pop = .ok (value, stack')) ↔ 0 < stack.depth) ∧
      ∀ value stack', stack.pop = .ok (value, stack') → stack.contents = stack'.contents ++ [value]) ∧
    (∀ index value, ((∃ stack', stack.set index value = .ok stack') ↔ index.toNat < size) ∧
      ∀ stack', stack.set index value = .ok stack' → stack'.sp = stack.sp ∧
        ∀ other, stack'.slots[other]? = if other = index.toNat then some value else stack.slots[other]?) ∧
    ∀ operation fault c', operate operation c = .error fault c' → c' = c := by
  intro c stack
  have hbounded : stack.Bounded size := stackBounded_operateAll operations (bounded_ofSize size)
  have hsize' : stack.slots.size < UInt16.size := by
    rw [hbounded.slots]
    exact Nat.lt_succ_of_le hsize
  refine ⟨⟨hbounded.slots, hbounded.sp, hbounded.length_contents⟩,
    fun value => ⟨hbounded.exists_push, fun stack' => contents_push hsize'⟩,
    ⟨hbounded.exists_pop, fun value stack' => contents_pop⟩,
    fun index value => ⟨hbounded.exists_set, fun stack' hset => ⟨?_, getElem?_slots_set hset⟩⟩,
    fun operation fault c' => cleanly_operate operation c fault c'⟩
  obtain ⟨-, rfl⟩ := set_eq_ok.1 hset
  rfl

/-- Two pushes fill a stack of two slots, so the third one faults; a word is then read, and one is taken off. -/
theorem stack_of_operations_twoSlots :
    let c := operateAll [.push 5, .push 6, .push 7, .get 0, .setSp 9, .pop]
      ⟨{ ofImage (.ofCode #[]) [] with stack := .ofSize 2 }, ()⟩
    c.machine.stack.contents = [5] ∧
      (∃ stack', c.machine.stack.push 8 = .ok stack' ∧ stack'.contents = [5, 8]) ∧
      ∀ fault c', operate (.set 2 1) c = .error fault c' → c' = c := by
  intro c
  obtain ⟨-, hpush, -, -, hclean⟩ := stack_of_operations (show 2 ≤ 65535 by decide) (ofImage (.ofCode #[]) []) ()
    [.push 5, .push 6, .push 7, .get 0, .setSp 9, .pop]
  have hcontents : c.machine.stack.contents = [5] := by decide
  obtain ⟨stack', hstack'⟩ := (hpush 8).1.2 (by decide)
  have hadded := (hpush 8).2 stack' hstack'
  refine ⟨hcontents, ⟨stack', hstack', ?_⟩, hclean (.set 2 1)⟩
  rw [hadded]
  exact congrArg (· ++ [8]) hcontents

end Machine

end Parley
