import Parley.Machine.Step
import Parley.Proofs.Fallible
set_option autoImplicit false

/-!
# One step of the machine

What a step is made of: the instruction is fetched, carried out and followed.  Carrying out an instruction
leaves the instruction pointer, the image, the mark of a finished machine and the number of slots alone;
where it leads is a matter of its opcode.
-/

namespace Parley

namespace OperandStack

variable {stack stack' : OperandStack} {value : UInt16}

/-- A value that is popped is taken from the slot of the stack pointer. -/
theorem pop_eq_ok : stack.pop = .ok (value, stack') ↔
    stack.sp ≠ emptySp ∧ stack.get stack.sp = .ok value ∧ stack' = { stack with sp := stack.sp - 1 } := by
  unfold pop
  split
  · rename_i hsp
    simp [hsp]
  · rename_i hsp
    cases hget : stack.get stack.sp with
    | error fault => simp [Except.map]
    | ok top =>
      simp only [Except.map, Except.ok.injEq, Prod.mk.injEq]
      constructor
      · rintro ⟨rfl, rfl⟩
        exact ⟨hsp, rfl, rfl⟩
      · rintro ⟨-, rfl, rfl⟩
        exact ⟨rfl, rfl⟩

theorem slots_of_pop (h : stack.pop = .ok (value, stack')) : stack'.slots = stack.slots := by
  obtain ⟨-, -, rfl⟩ := pop_eq_ok.1 h
  rfl

theorem slots_of_setSp {sp : UInt16} (h : stack.setSp sp = .ok stack') : stack'.slots = stack.slots := by
  unfold setSp at h
  split at h
  · cases h
    rfl
  · cases h

end OperandStack

namespace Machine

open Fallible

variable {σ : Type}

/-! ## What operations on the stack leave alone -/

/-- The conversation apart from the stack of its machine. -/
def stackless (c : Conversation σ) : Conversation σ :=
  { c with machine := { c.machine with stack := .ofSize 0 } }

theorem stackless_current : Keeps stackless (current (σ := σ)) := fun _ => rfl

theorem stackless_lift {α : Type} (result : Except MachineFault α) :
    Keeps stackless (lift (σ := σ) result) := by
  intro c
  cases result <;> rfl

theorem stackless_onStack (f : OperandStack → Except MachineFault OperandStack) :
    Keeps stackless (onStack (σ := σ) f) := by
  intro c
  unfold onStack
  split <;> rfl

theorem stackless_push (value : UInt16) : Keeps stackless (push (σ := σ) value) := by
  rw [push_eq]
  exact stackless_onStack _

theorem stackless_write (index value : UInt16) : Keeps stackless (write (σ := σ) index value) := by
  rw [write_eq]
  exact stackless_onStack _

theorem stackless_pop : Keeps stackless (pop (σ := σ)) := by
  intro c
  unfold pop
  split <;> rfl

theorem stackless_pushLocals (count : Nat) : Keeps stackless (pushLocals (σ := σ) count) := by
  induction count with
  | zero => exact keeps_pure _
  | succ count ih => exact (stackless_push _).bind fun _ => ih

/-! ## What instructions leave alone -/

/-- The part of a machine that no instruction changes while it is carried out. -/
structure Fixed where
  image : Image
  ip : UInt16
  finished : Bool

/-- The fixed part of a machine. -/
def fixed (c : Conversation σ) : Fixed := ⟨c.machine.image, c.machine.ip, c.machine.finished⟩

/-- The number of slots of the memory. -/
def slotCount (c : Conversation σ) : Nat := c.machine.stack.slots.size

/-- What lasts while an instruction is carried out: the fixed part of the machine and the number of slots. -/
def lasting (c : Conversation σ) : Fixed × Nat := (fixed c, slotCount c)

theorem lasting_of_stackless {α : Type} {x : Exec σ α} (hx : Keeps stackless x) (hsize : Keeps slotCount x) :
    Keeps lasting x := fun c => Prod.ext (hx.comp fixed c) (hsize c)

theorem lasting_current : Keeps lasting (current (σ := σ)) := fun _ => rfl

theorem lasting_modify {f : Machine → Machine}
    (hf : ∀ m, ((f m).image, (f m).ip, (f m).finished, (f m).stack) = (m.image, m.ip, m.finished, m.stack)) :
    Keeps lasting (modify (σ := σ) f) := by
  intro c
  have hc := hf c.machine
  simp only [Prod.mk.injEq] at hc
  obtain ⟨himage, hip, hfinished, hstack⟩ := hc
  simp [modify, lasting, fixed, slotCount, himage, hip, hfinished, hstack]

theorem lasting_lift {α : Type} (result : Except MachineFault α) :
    Keeps lasting (lift (σ := σ) result) := by
  intro c
  cases result <;> rfl

theorem lasting_push (value : UInt16) : Keeps lasting (push (σ := σ) value) := by
  refine lasting_of_stackless (stackless_push value) fun c => ?_
  unfold push
  split
  · exact Array.size_setIfInBounds
  · rfl

theorem lasting_write (index value : UInt16) : Keeps lasting (write (σ := σ) index value) := by
  refine lasting_of_stackless (stackless_write index value) fun c => ?_
  unfold write
  split
  · exact Array.size_setIfInBounds
  · rfl

theorem lasting_setSp (sp : UInt16) : Keeps lasting (onStack (σ := σ) (·.setSp sp)) := by
  refine lasting_of_stackless (stackless_onStack _) fun c => ?_
  unfold onStack
  split
  · rename_i heq
    exact congrArg Array.size (OperandStack.slots_of_setSp heq)
  · rfl

theorem lasting_pop : Keeps lasting (pop (σ := σ)) := by
  refine lasting_of_stackless stackless_pop fun c => ?_
  unfold pop
  split
  · rename_i heq
    exact congrArg Array.size (OperandStack.slots_of_pop heq)
  · rfl

theorem lasting_pushLocals (count : Nat) : Keeps lasting (pushLocals (σ := σ) count) := by
  induction count with
  | zero => exact keeps_pure _
  | succ count ih => exact (lasting_push _).bind fun _ => ih

section Host

variable (host : Host σ)

theorem lasting_readGlobal (access : GlobalAccess) : Keeps lasting (readGlobal host access) :=
  fun _ => rfl

theorem lasting_writeGlobal (access : GlobalAccess) : Keeps lasting (writeGlobal host access) :=
  fun _ => rfl

theorem lasting_invoke (call : IntrinsicCall) : Keeps lasting (invoke host call) := fun _ => rfl

theorem lasting_callIntrinsic (pos id : UInt16) : Keeps lasting (callIntrinsic host pos id) := by
  refine lasting_current.bind fun m => ?_
  split
  · exact keeps_throw _
  · dsimp only
    split
    · exact (lasting_lift _).bind fun _ => lasting_modify fun _ => rfl
    · exact lasting_invoke host _

theorem lasting_fetchValue : Keeps lasting (fetchValue host) := by
  refine lasting_pop.bind fun address => lasting_current.bind fun m =>
    (lasting_lift _).bind fun value => ?_
  split
  · exact (lasting_readGlobal host _).bind fun _ => lasting_push _
  · exact lasting_push _

theorem lasting_storeValue : Keeps lasting (storeValue host) := by
  refine lasting_pop.bind fun value => lasting_pop.bind fun address => lasting_current.bind fun m => ?_
  dsimp only
  split
  · exact (lasting_writeGlobal host _).bind fun _ => lasting_write _ _
  · exact lasting_write _ _

theorem lasting_speak : Keeps lasting (speak host) :=
  lasting_pop.bind fun _ => lasting_current.bind fun _ _ => rfl

theorem lasting_returnFlow : Keeps lasting (returnFlow (σ := σ)) := by
  refine lasting_current.bind fun m => ?_
  split
  · exact Keeps.bind (lasting_modify fun _ => rfl) fun _ => keeps_pure _
  · exact Keeps.bind (lasting_modify fun _ => rfl) fun _ => lasting_pop.bind fun _ => keeps_pure _

/-- Carrying out an instruction changes neither the fixed part of the machine nor the number of slots. -/
theorem lasting_perform (pos : UInt16) (opcode : Opcode) (operand : UInt16) :
    Keeps lasting (perform host pos opcode operand) := by
  cases opcode
  all_goals
    dsimp only [perform]
    repeat' with_reducible first
      | refine Keeps.bind ?_ fun _ => ?_
      | exact keeps_pure _
      | exact keeps_throw _
      | exact lasting_current
      | exact lasting_pop
      | exact lasting_push _
      | exact lasting_setSp _
      | exact lasting_pushLocals _
      | exact lasting_fetchValue host
      | exact lasting_storeValue host
      | exact lasting_speak host
      | exact lasting_returnFlow
      | exact lasting_callIntrinsic host _ _
      | split
      | (refine lasting_modify fun _ => ?_; rfl)

theorem keeps_perform (pos : UInt16) (opcode : Opcode) (operand : UInt16) :
    Keeps fixed (perform host pos opcode operand) :=
  (lasting_perform host pos opcode operand).comp Prod.fst

theorem sized_perform (pos : UInt16) (opcode : Opcode) (operand : UInt16) :
    Keeps slotCount (perform host pos opcode operand) :=
  (lasting_perform host pos opcode operand).comp Prod.snd

end Host

/-! ## Where instructions lead -/

/-- Whether an opcode always leads to the instruction behind it. -/
def leadsOn : Opcode → Bool
  | .jmp | .bra | .beq | .bne | .call | .ret | .exitOp => false
  | _ => true

theorem perform_leadsOn {host : Host σ} {pos operand : UInt16} {opcode : Opcode}
    (h : leadsOn opcode = true) : Yields (· = Flow.next) (perform host pos opcode operand) := by
  cases opcode
  all_goals
    first
      | exact absurd h (by decide)
      | dsimp only [perform]
        repeat' with_reducible first
          | exact yields_pure rfl
          | exact yields_throw _
          | refine Yields.bind fun _ => ?_
          | split

theorem perform_call {host : Host σ} {pos operand : UInt16} :
    Yields (· = Flow.goto operand) (perform host pos .call operand) := by
  dsimp only [perform]
  repeat' with_reducible first
    | exact yields_pure rfl
    | exact yields_throw _
    | refine Yields.bind fun _ => ?_
    | split

theorem exists_of_pop {value : UInt16} {c c' : Conversation σ} (h : pop c = .ok value c') :
    ∃ stack, c.machine.stack.pop = .ok (value, stack) := by
  unfold pop at h
  split at h
  · rename_i popped stack heq
    cases h
    exact ⟨stack, heq⟩
  · cases h

theorem perform_beq {host : Host σ} {pos operand : UInt16} {c c' : Conversation σ} {flow : Flow}
    (h : perform host pos .beq operand c = .ok flow c') :
    ∃ value stack, c.machine.stack.pop = .ok (value, stack) ∧
      flow = if value = 0 then .goto (branchTarget pos operand) else .next := by
  dsimp only [perform] at h
  obtain ⟨value, c₁, hpop, hflow⟩ := bind_eq_ok.1 h
  obtain ⟨stack, hstack⟩ := exists_of_pop hpop
  exact ⟨value, stack, hstack, (pure_eq_ok.1 hflow).1.symm⟩

theorem perform_bne {host : Host σ} {pos operand : UInt16} {c c' : Conversation σ} {flow : Flow}
    (h : perform host pos .bne operand c = .ok flow c') :
    ∃ value stack, c.machine.stack.pop = .ok (value, stack) ∧
      flow = if value = 0 then .next else .goto (branchTarget pos operand) := by
  dsimp only [perform] at h
  obtain ⟨value, c₁, hpop, hflow⟩ := bind_eq_ok.1 h
  obtain ⟨stack, hstack⟩ := exists_of_pop hpop
  exact ⟨value, stack, hstack, (pure_eq_ok.1 hflow).1.symm⟩

theorem perform_ret {host : Host σ} {pos operand : UInt16} {c c' : Conversation σ} {flow : Flow}
    (h : perform host pos .ret operand c = .ok flow c') :
    (c.machine.depth ≤ 1 ∧ flow = .finish .return) ∨
      (2 ≤ c.machine.depth ∧ ∃ caller stack, c.machine.stack.pop = .ok (caller, stack) ∧
        flow = .goto (caller + 1)) := by
  change returnFlow c = _ at h
  unfold returnFlow at h
  obtain ⟨m, c₁, hm, h⟩ := bind_eq_ok.1 h
  cases hm
  split at h
  · rename_i hdepth
    obtain ⟨_, c₂, _, hflow⟩ := bind_eq_ok.1 h
    exact Or.inl ⟨hdepth, (pure_eq_ok.1 hflow).1.symm⟩
  · rename_i hdepth
    obtain ⟨_, c₂, hmod, h⟩ := bind_eq_ok.1 h
    cases hmod
    obtain ⟨caller, c₃, hpop, hflow⟩ := bind_eq_ok.1 h
    obtain ⟨stack, hstack⟩ := exists_of_pop hpop
    exact Or.inr ⟨by omega, caller, stack, hstack, (pure_eq_ok.1 hflow).1.symm⟩

/-! ## A step -/

/-- The position to which an instruction at `pos` leads. -/
def Flow.target? (pos : UInt16) (opcode : Opcode) : Flow → Option UInt16
  | .next => some (pos + 1 + UInt16.ofNat opcode.operandCount)
  | .goto target => some target
  | .finish _ => none

/-- The conversation at another position of its code. -/
def atPos (c : Conversation σ) (pos : UInt16) : Conversation σ :=
  { c with machine := { c.machine with ip := pos } }

theorem follow_eq_continue {pos : UInt16} {opcode : Opcode} {flow : Flow} {c c' : Conversation σ} :
    follow pos opcode flow c = .ok .continue c' ↔
      ∃ target, flow.target? pos opcode = some target ∧ c' = atPos c target := by
  cases flow with
  | next =>
    constructor
    · intro h
      cases h
      exact ⟨_, rfl, rfl⟩
    · rintro ⟨target, ht, rfl⟩
      cases ht
      rfl
  | goto target =>
    constructor
    · intro h
      cases h
      exact ⟨_, rfl, rfl⟩
    · rintro ⟨target, ht, rfl⟩
      cases ht
      rfl
  | finish reason =>
    constructor
    · intro h
      cases h
    · rintro ⟨target, ht, -⟩
      cases ht

/-- What a step of a conversation may lead to.  A finished machine refuses it; otherwise the instruction at
the instruction pointer cannot be fetched, or faults, or leads on, or ends the conversation. -/
inductive Stepped (host : Host σ) (c : Conversation σ) :
    EStateM.Result MachineFault (Conversation σ) Step → Prop
  | refused (hfinished : c.machine.finished = true) : Stepped host c (.error .finished c)
  | unfetched {fault : MachineFault} (hgoing : c.machine.finished = false)
      (hfetch : fetch c.machine.image.code c.machine.ip = .error fault) :
      Stepped host c (.error fault (finish c))
  | faulted {opcode : Opcode} {operand : UInt16} {fault : MachineFault} {c₁ : Conversation σ}
      (hgoing : c.machine.finished = false)
      (hfetch : fetch c.machine.image.code c.machine.ip = .ok (opcode, operand))
      (hperform : perform host c.machine.ip opcode operand c = .error fault c₁) :
      Stepped host c (.error fault (finish c₁))
  | went {opcode : Opcode} {operand : UInt16} {flow : Flow} {c₁ : Conversation σ} {target : UInt16}
      (hgoing : c.machine.finished = false)
      (hfetch : fetch c.machine.image.code c.machine.ip = .ok (opcode, operand))
      (hperform : perform host c.machine.ip opcode operand c = .ok flow c₁)
      (htarget : flow.target? c.machine.ip opcode = some target) :
      Stepped host c (.ok .continue (atPos c₁ target))
  | ended {opcode : Opcode} {operand : UInt16} {reason : FinishReason} {c₁ : Conversation σ}
      (hgoing : c.machine.finished = false)
      (hfetch : fetch c.machine.image.code c.machine.ip = .ok (opcode, operand))
      (hperform : perform host c.machine.ip opcode operand c = .ok (.finish reason) c₁) :
      Stepped host c (.ok (.finished reason) (finish c₁))

theorem execute_of_fetched {host : Host σ} {c : Conversation σ} {opcode : Opcode} {operand : UInt16}
    (hfetch : fetch c.machine.image.code c.machine.ip = .ok (opcode, operand)) :
    execute host c =
      (perform host c.machine.ip opcode operand >>= follow c.machine.ip opcode) c := by
  have hlift : lift (σ := σ) (fetch c.machine.image.code c.machine.ip) c =
      .ok (opcode, operand) c := by
    rw [hfetch]
    rfl
  unfold execute
  rw [bind_of_ok (show current c = .ok c.machine c from rfl)]
  exact bind_of_ok hlift

theorem execute_of_unfetched {host : Host σ} {c : Conversation σ} {fault : MachineFault}
    (hfetch : fetch c.machine.image.code c.machine.ip = .error fault) :
    execute host c = .error fault c := by
  have hlift : lift (σ := σ) (fetch c.machine.image.code c.machine.ip) c = .error fault c := by
    rw [hfetch]
    rfl
  unfold execute
  rw [bind_of_ok (show current c = .ok c.machine c from rfl)]
  exact bind_of_error hlift

theorem stepped (host : Host σ) (c : Conversation σ) : Stepped host c (step host c) := by
  unfold step
  cases hfinished : c.machine.finished with
  | true => exact .refused hfinished
  | false =>
    cases hfetch : fetch c.machine.image.code c.machine.ip with
    | error fault =>
      rw [execute_of_unfetched hfetch]
      exact .unfetched hfinished hfetch
    | ok fetched =>
      obtain ⟨opcode, operand⟩ := fetched
      rw [execute_of_fetched hfetch]
      cases hperform : perform host c.machine.ip opcode operand c with
      | error fault c₁ =>
        rw [bind_of_error hperform]
        exact .faulted hfinished hfetch hperform
      | ok flow c₁ =>
        rw [bind_of_ok hperform]
        cases flow with
        | next => exact .went hfinished hfetch hperform rfl
        | goto target => exact .went hfinished hfetch hperform rfl
        | finish reason => exact .ended hfinished hfetch hperform

/-- A step with which the conversation goes on: an instruction is fetched and carried out, and the machine
is where it leads. -/
theorem step_eq_continue {host : Host σ} {c c' : Conversation σ} :
    step host c = .ok .continue c' ↔
      c.machine.finished = false ∧ ∃ opcode operand flow c₁ target,
        fetch c.machine.image.code c.machine.ip = .ok (opcode, operand) ∧
        perform host c.machine.ip opcode operand c = .ok flow c₁ ∧
        flow.target? c.machine.ip opcode = some target ∧ c' = atPos c₁ target := by
  constructor
  · intro h
    have hstep := stepped host c
    rw [h] at hstep
    cases hstep with
    | went hgoing hfetch hperform htarget =>
      exact ⟨hgoing, _, _, _, _, _, hfetch, hperform, htarget, rfl⟩
  · rintro ⟨hgoing, opcode, operand, flow, c₁, target, hfetch, hperform, htarget, rfl⟩
    unfold step
    rw [execute_of_fetched hfetch, bind_of_ok hperform, follow_eq_continue.2 ⟨target, htarget, rfl⟩]
    simp [hgoing]

/-- Outside of the code a machine that goes on faults. -/
theorem step_outside {host : Host σ} {c : Conversation σ} (hgoing : c.machine.finished = false)
    (h : c.machine.image.code.size ≤ c.machine.ip.toNat) :
    step host c = .error (.codeOutOfBounds c.machine.ip) (finish c) := by
  have hfetch : fetch c.machine.image.code c.machine.ip = .error (.codeOutOfBounds c.machine.ip) := by
    unfold fetch
    rw [Array.getElem?_eq_none h]
  unfold step
  rw [execute_of_unfetched hfetch]
  simp [hgoing]

/-! ## The start of a conversation -/

theorem stackless_loadGlobals (slot : Nat) (globals : List UInt16) :
    Keeps stackless (loadGlobals (σ := σ) slot globals) := by
  induction globals generalizing slot with
  | nil => exact keeps_pure _
  | cons value rest ih => exact (stackless_write _ _).bind fun _ => ih _

theorem lasting_loadGlobals (slot : Nat) (globals : List UInt16) :
    Keeps lasting (loadGlobals (σ := σ) slot globals) := by
  induction globals generalizing slot with
  | nil => exact keeps_pure _
  | cons value rest ih => exact (lasting_write _ _).bind fun _ => ih _

theorem lasting_importGlobal (host : Host σ) (slot : UInt16) (item : Import) :
    Keeps lasting (importGlobal host slot item) :=
  lasting_current.bind fun _ => (lasting_lift _).bind fun _ =>
    (lasting_readGlobal host _).bind fun _ => lasting_write _ _

theorem lasting_importGlobals (host : Host σ) (entries : List (UInt16 × Import)) :
    Keeps lasting (importGlobals host entries) := by
  induction entries with
  | nil => exact keeps_pure _
  | cons entry rest ih => exact (lasting_importGlobal host _ _).bind fun _ => ih

/-- Whether it succeeds or not, the start of a conversation puts the machine at the first word of its code, and marks
it as going on. -/
theorem lasting_init (host : Host σ) (globals : List UInt16) (c : Conversation σ) :
    lasting (final (init host globals c)) = (⟨c.machine.image, 0, false⟩, slotCount c) := by
  have hkeeps : Keeps lasting (do
      onStack (·.setSp (c.machine.atStart.image.reservedGlobals - 1))
      loadGlobals 0 globals
      importGlobals (σ := σ) host c.machine.atStart.image.globals.entries) :=
    (lasting_setSp _).bind fun _ => (lasting_loadGlobals _ _).bind fun _ => lasting_importGlobals host _
  have hsize : slotCount { c with machine := c.machine.atStart } = slotCount c := Array.size_replicate
  exact (hkeeps { c with machine := c.machine.atStart }).trans (Prod.ext rfl hsize)

/-- A conversation starts at the first word of its code. -/
theorem init_eq_ok {host : Host σ} {globals : List UInt16} {c c' : Conversation σ}
    (h : init host globals c = .ok () c') :
    c'.machine.image = c.machine.image ∧ c'.machine.ip = 0 ∧ c'.machine.finished = false := by
  have hfixed := congrArg Prod.fst (lasting_init host globals c)
  rw [h] at hfixed
  exact ⟨congrArg Fixed.image hfixed, congrArg Fixed.ip hfixed, congrArg Fixed.finished hfixed⟩

end Machine

end Parley
