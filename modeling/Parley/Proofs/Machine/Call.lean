import Parley.Proofs.Machine.Segment
set_option autoImplicit false

/-!
# The calling convention

A call leaves its return address on the stack; the prologue of the function saves the base pointer on top of
it and makes room for the local variables.  Whatever the body does with the stack above, the epilogue finds
both where the base pointer points to, and the caller goes on in the frame that it had.
-/

namespace Parley

open Source

/-! ## Frames on the stack -/

namespace OperandStack

variable {stack stack' : OperandStack} {value caller bp locals : UInt16} {count : Nat}

/-- The second stack has `count` more elements, which are local variables before the first write. -/
structure Filled (stack : OperandStack) (count : Nat) (stack' : OperandStack) : Prop where
  size : stack'.slots.size = stack.slots.size
  sp : stack'.sp = stack.sp + UInt16.ofNat count
  filled : ∀ k, 1 ≤ k → k ≤ count → stack'.get (stack.sp + UInt16.ofNat k) = .ok Machine.localFill
  below : ∀ index, index.toNat < stack.depth → stack'.get index = stack.get index

/-- The second stack has a frame on top: the return address, the base pointer of the caller and local
variables before the first write. -/
structure Framed (stack : OperandStack) (caller bp locals : UInt16) (stack' : OperandStack) : Prop where
  size : stack'.slots.size = stack.slots.size
  sp : stack'.sp = stack.sp + 2 + locals
  caller : stack'.get (stack.sp + 1) = .ok caller
  bp : stack'.get (stack.sp + 2) = .ok bp
  filled : ∀ k, 1 ≤ k → k ≤ locals → stack'.get (stack.sp + 2 + k) = .ok Machine.localFill
  below : ∀ index, index.toNat < stack.depth → stack'.get index = stack.get index

theorem Pushed.filled (hpushed : stack.Pushed Machine.localFill stack') (hroom : stack.Room 1)
    {stack'' : OperandStack} (hfilled : stack'.Filled count stack'') :
    stack.Filled (count + 1) stack'' := by
  have hdepth := hpushed.depth hroom
  refine ⟨hfilled.size.trans hpushed.size, ?_, fun k hpos hle => ?_, fun index hindex => ?_⟩
  · rw [hfilled.sp, hpushed.sp, UInt16.ofNat_add, UInt16.add_assoc, UInt16.add_comm 1]
    rfl
  · obtain rfl | ⟨k, rfl⟩ : k = 1 ∨ ∃ j, k = j + 2 := by
      rcases Nat.lt_or_ge 1 k with hlt | hge
      · exact Or.inr ⟨k - 2, by omega⟩
      · exact Or.inl (by omega)
    · have hindex : (stack.sp + 1).toNat < stack'.depth := by
        rw [hdepth]
        exact Nat.lt_succ_self _
      exact (hfilled.below _ hindex).trans hpushed.top
    · have haddress : stack.sp + UInt16.ofNat (k + 2) = stack'.sp + UInt16.ofNat (k + 1) := by
        rw [hpushed.sp, UInt16.add_assoc, UInt16.add_comm 1]
        exact congrArg _ (UInt16.ofNat_add (k + 1) 1)
      rw [haddress]
      exact hfilled.filled (k + 1) (Nat.le_add_left 1 k) (by omega)
  · rw [hfilled.below index (by omega), hpushed.below index hindex]

theorem hasSlot_of_get {index : UInt16} (h : stack.get index = .ok value) :
    stack.hasSlot index = true := by
  unfold OperandStack.get at h
  split at h
  · rename_i hslot
    exact decide_eq_true (Array.getElem?_eq_some_iff.1 hslot).1
  · cases h

theorem Room.ne_emptySp (hroom : stack.Room 3) :
    stack.sp + 1 ≠ emptySp ∧ stack.sp + 2 ≠ emptySp := by
  have hlt : (stack.sp + 1).toNat + 3 < UInt16.size := hroom.2
  have htwo : stack.sp + 2 = stack.sp + 1 + 1 := by grind
  refine ⟨fun heq => ?_, fun heq => ?_⟩
  · rw [heq] at hlt
    exact absurd hlt (by decide)
  · have hone : stack.sp + 1 = 0xfffe := by
      have hpred := congrArg (· - 1) (htwo.symm.trans heq)
      rwa [UInt16.add_sub_cancel] at hpred
    rw [hone] at hlt
    exact absurd hlt (by decide)

theorem pop_of_get (hsp : stack.sp ≠ emptySp) (h : stack.get stack.sp = .ok value) :
    stack.pop = .ok (value, { stack with sp := stack.sp - 1 }) := by
  rw [OperandStack.pop, if_neg hsp, h]
  rfl

/-- A frame is built from the return address, the base pointer and the local variables in turn. -/
theorem Pushed.framed (hcaller : stack.Pushed caller stack') (hroom : stack.Room 2)
    {stack₂ stack₃ : OperandStack} (hbp : stack'.Pushed bp stack₂)
    (hlocals : stack₂.Filled locals.toNat stack₃) : stack.Framed caller bp locals stack₃ := by
  have hdepth := hcaller.depth (hroom.mono (Nat.le_succ 1))
  have hdepth₂ := hbp.depth (hcaller.room hroom)
  have hsp₂ : stack₂.sp = stack.sp + 2 := by
    rw [hbp.sp, hcaller.sp, UInt16.add_assoc]
    rfl
  have htop₂ : (stack.sp + 2).toNat < stack₂.depth := by
    have htop : stack'.depth = (stack.sp + 2).toNat := by
      unfold OperandStack.depth
      rw [hcaller.sp, UInt16.add_assoc]
      rfl
    omega
  have htop : (stack.sp + 1).toNat < stack'.depth := by
    rw [hdepth]
    exact Nat.lt_succ_self _
  refine ⟨hlocals.size.trans (hbp.size.trans hcaller.size), ?_, ?_, ?_, fun k hpos hle => ?_,
    fun index hindex => ?_⟩
  · rw [hlocals.sp, hsp₂, UInt16.ofNat_toNat]
  · rw [hlocals.below _ (by omega), hbp.below _ htop, hcaller.top]
  · have hsp : stack'.sp + 1 = stack.sp + 2 := hbp.sp.symm.trans hsp₂
    rw [hlocals.below _ htop₂, ← hsp, hbp.top]
  · have hfilled := hlocals.filled k.toNat (UInt16.le_iff_toNat_le.1 hpos)
      (UInt16.le_iff_toNat_le.1 hle)
    rwa [hsp₂, UInt16.ofNat_toNat] at hfilled
  · rw [hlocals.below index (by omega), hbp.below index (by omega), hcaller.below index hindex]

/-- The arguments of a call lie below its frame, the last one on top. -/
theorem Framed.argument (h : stack.Framed caller bp locals stack') (hroom : stack.Room 1) {k : UInt16}
    (hpos : 1 ≤ k) (hle : k.toNat ≤ stack.depth) :
    ∃ argument, stack.contents.reverse[k.toNat - 1]? = some argument ∧
      stack'.get (stack.sp - (k - 1)) = .ok argument := by
  have hk : 1 ≤ k.toNat := UInt16.le_iff_toNat_le.1 hpos
  have hslots : stack.depth ≤ stack.slots.size := by
    have := hroom.1
    omega
  have haddress : (stack.sp - (k - 1)).toNat = stack.depth - k.toNat := by
    have hsp : stack.sp - (k - 1) = stack.sp + 1 - k := by grind
    rw [hsp, UInt16.toNat_sub_of_le _ _ (UInt16.le_iff_toNat_le.2 hle)]
    rfl
  have hlt : stack.depth - k.toNat < stack.slots.size := by omega
  refine ⟨stack.slots[stack.depth - k.toNat], ?_, ?_⟩
  · have hlength : stack.contents.length = stack.depth := by
      simp [contents, Nat.min_eq_left hslots]
    rw [List.getElem?_reverse (by omega), hlength, contents, List.getElem?_take_of_lt (by omega),
      Array.getElem?_toList, Nat.sub_sub, Nat.add_sub_cancel' hk, Array.getElem?_eq_getElem hlt]
  · rw [h.below _ (by omega), get, haddress, Array.getElem?_eq_getElem hlt]

end OperandStack

/-- The conversation within another call and frame. -/
def Conversation.within {σ : Type} (c : Conversation σ) (depth : Nat) (bp : UInt16) : Conversation σ :=
  { c with machine := { c.machine with depth, bp } }

namespace Machine

open Fallible

variable {σ : Type} {host : Host σ} {c c' : Conversation σ}

/-! ## What a run keeps -/

theorem Reaches.fixed (h : Reaches host c c') :
    c'.machine.image = c.machine.image ∧ c'.machine.finished = c.machine.finished := by
  induction h with
  | refl => exact ⟨rfl, rfl⟩
  | tail _ hstep ih =>
    obtain ⟨-, opcode, operand, flow, c₁, target, -, hperform, -, rfl⟩ := step_eq_continue.1 hstep
    have hfixed := (keeps_perform host _ opcode operand).of_ok hperform
    exact ⟨(congrArg Fixed.image hfixed).trans ih.1, (congrArg Fixed.finished hfixed).trans ih.2⟩

/-! ## Entering a function -/

variable (c) in
theorem pushLocals_moved (index : Nat) {count : Nat} {stack stack' : OperandStack} (hlike : stack.Like stack')
    (hroom : stack.Room count) :
    ∃ stack'', pushLocals count (c.moved index stack') = .ok () (c.moved index stack'') ∧
      stack.Filled count stack'' := by
  induction count generalizing stack stack' with
  | zero =>
    refine ⟨stack', rfl, hlike.size, ?_, fun k hpos hle => by omega, hlike.below⟩
    rw [hlike.sp]
    exact (UInt16.add_zero _).symm
  | succ count ih =>
    have hone := hroom.mono (Nat.le_add_left 1 count)
    obtain ⟨hslot, hpushed⟩ := hlike.extend hone localFill
    obtain ⟨stack₂, hrun, hfilled⟩ := ih (OperandStack.Like.refl _) (hpushed.room hroom)
    exact ⟨stack₂, (bind_of_ok (push_moved hslot)).trans hrun, hpushed.filled hone hfilled⟩

theorem moved_toNat (pos : UInt16) (index : Nat) (stack : OperandStack) :
    c.moved pos.toNat stack = atPos (c.moved index stack) pos := by
  simp [Conversation.moved, atPos]

variable (host) in
theorem steps_call (hgoing : c.machine.finished = false) {index : Nat} {stack : OperandStack}
    {callee : UInt16} (hcode : CodeAt c.machine.image.code index [⟨.call, some callee⟩])
    (hlimit : c.machine.depth < callDepthLimit) (hroom : stack.Room 1) :
    ∃ stack', Steps host 1 (c.moved index stack)
        ((c.within (c.machine.depth + 1) c.machine.bp).moved callee.toNat stack') ∧
      stack.Pushed (UInt16.ofNat index + 1) stack' := by
  obtain ⟨hslot, hpushed⟩ := (OperandStack.Like.refl stack).extend hroom (UInt16.ofNat index + 1)
  have hperform : perform host (UInt16.ofNat index) .call callee (c.moved index stack) =
      .ok (.goto callee) ((c.within (c.machine.depth + 1) c.machine.bp).moved index
        (stack.extend (UInt16.ofNat index + 1))) := by
    change (if c.machine.depth ≥ callDepthLimit then _ else _ : Exec σ Flow) _ = _
    rw [if_neg (Nat.not_le_of_lt hlimit)]
    exact bind_of_ok (push_moved hslot)
  refine ⟨_, ?_, hpushed⟩
  rw [moved_toNat (c := c.within (c.machine.depth + 1) c.machine.bp) callee index]
  exact steps_of_flow (c := c.moved index stack) hgoing (hcode.fetch rfl) hperform rfl

variable (host) in
theorem steps_pushBp (hgoing : c.machine.finished = false) {index : Nat} {stack : OperandStack}
    (hcode : CodeAt c.machine.image.code index [⟨.pushBp, none⟩]) (hroom : stack.Room 1) :
    ∃ stack', Steps host 1 (c.moved index stack) (c.moved (index + 1) stack') ∧
      stack.Pushed c.machine.bp stack' := by
  obtain ⟨hslot, hpushed⟩ := (OperandStack.Like.refl stack).extend hroom c.machine.bp
  exact ⟨_, steps_instruction hgoing hcode rfl (bind_of_ok (push_moved hslot)), hpushed⟩

variable (host) in
theorem steps_spToBp (hgoing : c.machine.finished = false) {index : Nat} (stack : OperandStack)
    (hcode : CodeAt c.machine.image.code index [⟨.spToBp, none⟩]) :
    Steps host 1 (c.moved index stack)
      ((c.within c.machine.depth stack.sp).moved (index + 1) stack) :=
  steps_of_next hgoing hcode rfl rfl

variable (host) in
theorem steps_addSp (hgoing : c.machine.finished = false) {index : Nat} {stack stack' : OperandStack}
    {locals : UInt16} (hcode : CodeAt c.machine.image.code index [⟨.addSp, none⟩])
    (hroom : stack.Room (max 1 locals.toNat)) (hpushed : stack.Pushed locals stack') :
    ∃ stack'', Steps host 1 (c.moved index stack') (c.moved (index + 1) stack'') ∧
      stack.Filled locals.toNat stack'' := by
  obtain ⟨hpop, hlike⟩ := hpushed.pop (hroom.mono (Nat.le_max_left _ _))
  obtain ⟨stack₁, hlocals, hfilled⟩ := pushLocals_moved c index hlike
    (hroom.mono (Nat.le_max_right _ _))
  exact ⟨stack₁, steps_instruction hgoing hcode rfl
    ((bind_of_ok (pop_moved hpop)).trans (bind_of_ok hlocals)), hfilled⟩

variable (host) in
/-- A call and the prologue of the function put a frame on the stack. -/
theorem steps_enter (hgoing : c.machine.finished = false) {callee locals : UInt16}
    (hcall : CodeAt c.machine.image.code c.machine.ip.toNat [⟨.call, some callee⟩])
    (hcallee : CodeAt c.machine.image.code callee.toNat (prologueCode locals))
    (hlimit : c.machine.depth < callDepthLimit)
    (hroom : c.machine.stack.Room (max 3 (locals.toNat + 2))) :
    ∃ stack, Steps host 5 c
        ((c.within (c.machine.depth + 1) (c.machine.stack.sp + 2)).moved (callee.toNat + 5) stack) ∧
      c.machine.stack.Framed (c.machine.ip + 1) c.machine.bp locals stack := by
  obtain ⟨hsave, hrest⟩ := CodeAt.append (show CodeAt _ _ ([_] ++ [_, _, _]) from hcallee)
  obtain ⟨hframe, hrest⟩ := CodeAt.append (show CodeAt _ _ ([_] ++ [_, _]) from hrest)
  obtain ⟨hcount, hlocals⟩ := CodeAt.append (show CodeAt _ _ ([_] ++ [_]) from hrest)
  have hroomOne := hroom.mono (show 1 ≤ max 3 (locals.toNat + 2) by omega)
  obtain ⟨stack₁, hrun₁, hpushed₁⟩ := steps_call host hgoing hcall hlimit hroomOne
  rw [moved_self] at hrun₁
  rw [UInt16.ofNat_toNat] at hpushed₁
  have hroom₁ := hpushed₁.room (hroom.mono
    (show max 1 locals.toNat + 1 + 1 ≤ max 3 (locals.toNat + 2) by omega))
  obtain ⟨stack₂, hrun₂, hpushed₂⟩ :=
    steps_pushBp host (c := c.within (c.machine.depth + 1) c.machine.bp) hgoing hsave
      (hroom₁.mono (Nat.le_add_left 1 _))
  have hroom₂ := hpushed₂.room hroom₁
  have hrun₃ := steps_spToBp host (c := c.within (c.machine.depth + 1) c.machine.bp) hgoing stack₂
    hframe
  obtain ⟨stack₃, hrun₄, hpushed₃⟩ :=
    steps_pushi host (c := c.within (c.machine.depth + 1) stack₂.sp) hgoing hcount
      (hroom₂.mono (Nat.le_max_left _ _))
  obtain ⟨stack₄, hrun₅, hfilled⟩ :=
    steps_addSp host (c := c.within (c.machine.depth + 1) stack₂.sp) hgoing hlocals
      hroom₂ hpushed₃
  have hsp : stack₂.sp = c.machine.stack.sp + 2 := by
    rw [hpushed₂.sp, hpushed₁.sp, UInt16.add_assoc]
    rfl
  refine ⟨stack₄, ?_, hpushed₁.framed (hroom.mono (by omega)) hpushed₂ hfilled⟩
  rw [← hsp]
  exact (((hrun₁.trans hrun₂).trans hrun₃).trans hrun₄).trans hrun₅

/-! ## Leaving a function -/

variable (host) in
theorem steps_bpToSp (hgoing : c.machine.finished = false) {index : Nat} (stack : OperandStack)
    (hcode : CodeAt c.machine.image.code index [⟨.bpToSp, none⟩])
    (hslot : stack.hasSlot c.machine.bp = true) :
    Steps host 1 (c.moved index stack)
      (c.moved (index + 1) { stack with sp := c.machine.bp }) := by
  refine steps_instruction hgoing hcode rfl ?_
  have hset : stack.setSp c.machine.bp = .ok { stack with sp := c.machine.bp } :=
    if_pos (Or.inr (of_decide_eq_true hslot))
  have hstack : onStack (·.setSp c.machine.bp) (c.moved index stack) =
      .ok () (c.moved index { stack with sp := c.machine.bp }) := by
    have hmoved : (c.moved index stack).machine.stack.setSp c.machine.bp =
        .ok { stack with sp := c.machine.bp } := hset
    simp only [onStack, hmoved]
    rfl
  exact bind_of_ok hstack

variable (host) in
theorem steps_popBp (hgoing : c.machine.finished = false) {index : Nat} {stack stack' : OperandStack}
    {bp : UInt16} (hcode : CodeAt c.machine.image.code index [⟨.popBp, none⟩])
    (hpop : stack.pop = .ok (bp, stack')) :
    Steps host 1 (c.moved index stack) ((c.within c.machine.depth bp).moved (index + 1) stack') :=
  steps_of_next hgoing hcode rfl (bind_of_ok (pop_moved hpop))

variable (host) in
theorem steps_ret (hgoing : c.machine.finished = false) {index : Nat} {stack stack' : OperandStack}
    {caller : UInt16} (hcode : CodeAt c.machine.image.code index [⟨.ret, none⟩])
    (hdepth : 2 ≤ c.machine.depth) (hpop : stack.pop = .ok (caller, stack')) :
    Steps host 1 (c.moved index stack)
      ((c.within (c.machine.depth - 1) c.machine.bp).moved (caller + 1).toNat stack') := by
  have hperform : perform host (UInt16.ofNat index) .ret 0 (c.moved index stack) =
      .ok (.goto (caller + 1)) ((c.within (c.machine.depth - 1) c.machine.bp).moved index stack') := by
    change (if c.machine.depth ≤ 1 then _ else _ : Exec σ Flow) _ = _
    rw [if_neg (by omega)]
    exact bind_of_ok (pop_moved (c := c.within (c.machine.depth - 1) c.machine.bp) hpop)
  rw [moved_toNat (c := c.within (c.machine.depth - 1) c.machine.bp) (caller + 1) index]
  exact steps_of_flow (c := c.moved index stack) hgoing (hcode.fetch rfl) hperform rfl

variable (host) in
/-- The epilogue of a function restores the frame that the base pointer points to. -/
theorem steps_leave (hgoing : c.machine.finished = false)
    (hcode : CodeAt c.machine.image.code c.machine.ip.toNat epilogueCode)
    (hdepth : 2 ≤ c.machine.depth) {caller bp base : UInt16} (hbase : c.machine.bp = base + 2)
    (hroom : base + 1 ≠ OperandStack.emptySp ∧ base + 2 ≠ OperandStack.emptySp)
    (hcaller : c.machine.stack.get (base + 1) = .ok caller)
    (hbp : c.machine.stack.get (base + 2) = .ok bp) :
    Steps host 3 c ((c.within (c.machine.depth - 1) bp).moved (caller + 1).toNat
      { c.machine.stack with sp := base }) := by
  obtain ⟨hmove, hrest⟩ := CodeAt.append (show CodeAt _ _ ([_] ++ [_, _]) from hcode)
  obtain ⟨hrestore, hreturn⟩ := CodeAt.append (show CodeAt _ _ ([_] ++ [_]) from hrest)
  have hpopBp : OperandStack.pop { c.machine.stack with sp := base + 2 } =
      .ok (bp, { c.machine.stack with sp := base + 1 }) := by
    refine (OperandStack.pop_of_get hroom.2 hbp).trans ?_
    simp only [Except.ok.injEq, Prod.mk.injEq, OperandStack.mk.injEq, true_and]
    grind
  have hpopCaller : OperandStack.pop { c.machine.stack with sp := base + 1 } =
      .ok (caller, { c.machine.stack with sp := base }) := by
    refine (OperandStack.pop_of_get hroom.1 hcaller).trans ?_
    rw [UInt16.add_sub_cancel]
  have hslot : c.machine.stack.hasSlot c.machine.bp = true := by
    rw [hbase]
    exact OperandStack.hasSlot_of_get hbp
  have hrun₁ := steps_bpToSp host hgoing c.machine.stack hmove hslot
  rw [hbase, moved_self] at hrun₁
  have hrun₂ := steps_popBp host hgoing hrestore hpopBp
  have hrun₃ := steps_ret host (c := c.within c.machine.depth bp) hgoing hreturn hdepth
    hpopCaller
  exact (hrun₁.trans hrun₂).trans hrun₃

/-! ## Calls and returns -/

/-- Wherever a run from a state has the base pointer of that state, the instruction that pushes the address
at a distance from the base pointer pushes `address`. -/
def Addresses (host : Host σ) (frame : Conversation σ) (offset address : UInt16) : Prop :=
  ∀ c, Reaches host frame c → c.machine.bp = frame.machine.bp →
    CodeAt c.machine.image.code c.machine.ip.toNat [⟨.pushiEff, some offset⟩] →
    c.machine.stack.Room 1 →
    ∃ stack, Steps host 1 c (c.moved (c.machine.ip.toNat + 2) stack) ∧
      c.machine.stack.Pushed address stack

theorem addresses (host : Host σ) (frame : Conversation σ) (hgoing : frame.machine.finished = false)
    (offset : UInt16) : Addresses host frame offset (frame.machine.bp + offset) := by
  intro c hreaches hbp hcode hroom
  obtain ⟨stack, hrun, hpushed⟩ := steps_pushiEff host (hreaches.fixed.2.trans hgoing) hcode hroom
  rw [moved_self] at hrun
  rw [hbp] at hpushed
  exact ⟨stack, hrun, hpushed⟩

/-- The calling convention.  A call and the prologue of the function make a frame: the base pointer points to
the saved one, the local variables lie above it and the arguments below.  And any run of the body that comes
to the epilogue in this frame, whatever it leaves on the stack, returns behind the call, to the frame and the
stack of the caller. -/
theorem call_convention (host : Host σ) {c : Conversation σ} (hgoing : c.machine.finished = false)
    {callee locals : UInt16}
    (hcall : CodeAt c.machine.image.code c.machine.ip.toNat [⟨.call, some callee⟩])
    (hcallee : CodeAt c.machine.image.code callee.toNat (prologueCode locals))
    (hdepth : 1 ≤ c.machine.depth) (hlimit : c.machine.depth < callDepthLimit)
    (hroom : c.machine.stack.Room (max 3 (locals.toNat + 2))) :
    ∃ frame, Steps host 5 c frame ∧
      frame.machine.ip = callee + 5 ∧ frame.machine.bp = c.machine.stack.sp + 2 ∧
      frame.machine.stack.sp = frame.machine.bp + locals ∧
      frame.machine.depth = c.machine.depth + 1 ∧
      (∀ k, 1 ≤ k → k ≤ locals →
        frame.machine.stack.get (frame.machine.bp + k) = .ok localFill ∧
        Addresses host frame k (frame.machine.bp + k)) ∧
      (∀ k : UInt16, 1 ≤ k → k.toNat ≤ c.machine.stack.depth →
        ∃ argument, c.machine.stack.contents.reverse[k.toNat - 1]? = some argument ∧
          frame.machine.stack.get (c.machine.stack.sp - (k - 1)) = .ok argument ∧
          Addresses host frame (-(k + 1)) (c.machine.stack.sp - (k - 1))) ∧
      ∀ exit, Reaches host frame exit →
        CodeAt exit.machine.image.code exit.machine.ip.toNat epilogueCode →
        exit.machine.depth = c.machine.depth + 1 → exit.machine.bp = frame.machine.bp →
        (∀ slot ∈ [c.machine.stack.sp + 1, c.machine.stack.sp + 2],
          exit.machine.stack.get slot = frame.machine.stack.get slot) →
        ∃ back, Steps host 3 exit back ∧ back.machine.ip = c.machine.ip + 2 ∧
          back.machine.bp = c.machine.bp ∧ back.machine.stack.sp = c.machine.stack.sp ∧
          back.machine.depth = c.machine.depth := by
  obtain ⟨stack, hrun, hframed⟩ := steps_enter host hgoing hcall hcallee hlimit hroom
  have haddresses := addresses host ((c.within (c.machine.depth + 1)
    (c.machine.stack.sp + 2)).moved (callee.toNat + 5) stack) hgoing
  refine ⟨_, hrun, ?_, rfl, hframed.sp, rfl, fun k hpos hle => ⟨hframed.filled k hpos hle, ?_⟩,
    fun k hpos hle => ?_, fun exit hreaches hcode hexit hbp hslots => ?_⟩
  · exact (UInt16.ofNat_add _ _).trans (by rw [UInt16.ofNat_toNat]; rfl)
  · exact haddresses k
  · obtain ⟨argument, hargument, hget⟩ := hframed.argument (hroom.mono (by omega)) hpos hle
    have haddress : c.machine.stack.sp - (k - 1) = c.machine.stack.sp + 2 + -(k + 1) := by grind
    refine ⟨argument, hargument, hget, ?_⟩
    rw [haddress]
    exact haddresses (-(k + 1))
  · have hcaller := (hslots _ List.mem_cons_self).trans hframed.caller
    have hsaved := (hslots _ (List.mem_cons_of_mem _ List.mem_cons_self)).trans hframed.bp
    have hdepth' : 2 ≤ exit.machine.depth := by omega
    have hleave := steps_leave host (hreaches.fixed.2.trans hgoing) hcode hdepth' hbp
      (OperandStack.Room.ne_emptySp (hroom.mono (Nat.le_max_left _ _))) hcaller hsaved
    refine ⟨_, hleave, ?_, rfl, rfl, Nat.sub_eq_of_eq_add hexit⟩
    exact UInt16.ofNat_toNat.trans (UInt16.add_assoc _ _ _)

/-- A call with one argument of a function with two local variables and an empty body. -/
def argumentCall : Conversation Unit :=
  ⟨{ ofImage (.ofCode (encode ([⟨.call, some 3⟩, ⟨.exitOp, none⟩] ++
      (prologueCode 2 ++ epilogueCode))).toArray) [] with
    stack := ⟨#[70, 9, 4, 12, 0, 0, 0, 0, 0], 3⟩, bp := 2, depth := 1, finished := false }, ()⟩

theorem call_convention_argumentCall :
    ∃ frame back, Steps Host.silent 5 argumentCall frame ∧ frame.machine.bp = 5 ∧
      frame.machine.stack.sp = 7 ∧ frame.machine.stack.get 6 = .ok localFill ∧
      frame.machine.stack.get 3 = .ok 12 ∧ Steps Host.silent 3 frame back ∧
      back.machine.ip = 2 ∧ back.machine.bp = 2 ∧ back.machine.stack.sp = 3 ∧
      back.machine.depth = 1 := by
  have hcall : CodeAt argumentCall.machine.image.code 0 [⟨.call, some 3⟩] :=
    ⟨[], _, rfl, rfl, by decide⟩
  have hcallee : CodeAt argumentCall.machine.image.code 3 (prologueCode 2) :=
    ⟨encode [⟨.call, some 3⟩, ⟨.exitOp, none⟩], _, rfl, rfl, by decide⟩
  have hleave : CodeAt argumentCall.machine.image.code 8 epilogueCode :=
    ⟨encode ([⟨.call, some 3⟩, ⟨.exitOp, none⟩] ++ prologueCode 2), [], rfl, rfl, by decide⟩
  obtain ⟨frame, hrun, hip, hbp, hsp, hdepth, hlocals, harguments, hreturns⟩ :=
    call_convention Host.silent (c := argumentCall) rfl hcall hcallee (by decide)
      (by decide) ⟨by decide, by decide⟩
  have hbp' : frame.machine.bp = 5 := hbp
  have hlocal := (hlocals 1 (by decide) (by decide)).1
  obtain ⟨argument, hargument, hget, -⟩ := harguments 1 (by decide) (by decide)
  cases hargument
  have himage := hrun.reaches.fixed.1
  obtain ⟨back, hback, hend⟩ := hreturns frame Relation.ReflTransGen.refl
    (by rw [himage, hip]; exact hleave) hdepth rfl (fun _ _ => rfl)
  rw [hbp'] at hsp hlocal
  exact ⟨frame, back, hrun, hbp', hsp, hlocal, hget, hback, hend⟩

end Machine

end Parley
