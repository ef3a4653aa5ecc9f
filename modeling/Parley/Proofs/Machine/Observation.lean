import Parley.Proofs.Machine.Step
set_option autoImplicit false

/-!
# What a machine does to its host

Whatever host a conversation has, a second one does the same and also notes each call that is made of it.
The conversation does not notice: with the noting host it goes as it goes with the other, step by step.  So
the calls that a step makes are well defined for every host, and so are those of a sequence of steps.

A store is the only instruction that announces a write.  What the host's other functions uphold of its state,
every other instruction upholds.
-/

namespace Parley

/-- A call that a machine makes of its host. -/
inductive HostCall where
  /-- It speaks a line. -/
  | say (id : UInt16) (text : String)
  /-- It has an imported function carried out. -/
  | invoke (call : IntrinsicCall)
  /-- It asks for the value of a global slot. -/
  | readGlobal (access : GlobalAccess)
  /-- It announces the write of a global slot. -/
  | writeGlobal (access : GlobalAccess)

/-- The write that a call announces. -/
def HostCall.write? : HostCall → Option GlobalAccess
  | .writeGlobal access => some access
  | _ => none

variable {σ α β : Type}

/-- The host that does what another does, and notes the calls that are made of it. -/
def Host.noting (host : Host σ) : Host (σ × List HostCall) where
  say id text state := (host.say id text state.1, state.2 ++ [.say id text])
  invoke call state :=
    let reply := host.invoke call state.1
    ⟨reply.result, reply.newStrings, (reply.state, state.2 ++ [.invoke call])⟩
  readGlobal access state :=
    let (value, after) := host.readGlobal access state.1
    (value, (after, state.2 ++ [.readGlobal access]))
  writeGlobal access state := (host.writeGlobal access state.1, state.2 ++ [.writeGlobal access])

namespace Conversation

/-- The conversation with a noting host that has noted nothing yet. -/
def noted (c : Conversation σ) : Conversation (σ × List HostCall) := ⟨c.machine, (c.host, [])⟩

/-- The conversation without the notes of its host. -/
def plain (c : Conversation (σ × List HostCall)) : Conversation σ := ⟨c.machine, c.host.1⟩

@[simp] theorem plain_noted (c : Conversation σ) : c.noted.plain = c := rfl

@[simp] theorem machine_plain (c : Conversation (σ × List HostCall)) :
    c.plain.machine = c.machine := rfl

end Conversation

namespace Machine

open Fallible

/-! ## The noting host changes nothing else -/

/-- An outcome without the notes of the host. -/
def plainResult : EStateM.Result MachineFault (Conversation (σ × List HostCall)) α →
    EStateM.Result MachineFault (Conversation σ) α
  | .ok a c => .ok a c.plain
  | .error fault c => .error fault c.plain

/-- Without the notes of the host, the first computation does what the second does. -/
def Mirrors (noting : Exec (σ × List HostCall) α) (x : Exec σ α) : Prop :=
  ∀ c, x c.plain = plainResult (noting c)

theorem mirrors_pure (a : α) : Mirrors (σ := σ) (pure a) (pure a) := fun _ => rfl

theorem mirrors_throw (fault : MachineFault) : Mirrors (σ := σ) (α := α) (throw fault) (throw fault) :=
  fun _ => rfl

theorem Mirrors.bind {noting : Exec (σ × List HostCall) α} {x : Exec σ α}
    {noting' : α → Exec (σ × List HostCall) β} {f : α → Exec σ β} (hx : Mirrors noting x)
    (hf : ∀ a, Mirrors (noting' a) (f a)) : Mirrors (noting >>= noting') (x >>= f) := by
  intro c
  have hc := hx c
  cases h : noting c with
  | ok a c₁ =>
    rw [h] at hc
    rw [bind_of_ok h, bind_of_ok hc]
    exact hf a c₁
  | error fault c₁ =>
    rw [h] at hc
    rw [bind_of_error h, bind_of_error hc]
    rfl

theorem Mirrors.of_ok {noting : Exec (σ × List HostCall) α} {x : Exec σ α} (h : Mirrors noting x)
    {c c' : Conversation σ} {a : α} (hx : x c = .ok a c') :
    ∃ c₁, noting c.noted = .ok a c₁ ∧ c₁.plain = c' := by
  have hc := h c.noted
  rw [Conversation.plain_noted, hx] at hc
  cases hnoting : noting c.noted with
  | ok a₁ c₁ =>
    rw [hnoting] at hc
    cases hc
    exact ⟨c₁, rfl, rfl⟩
  | error fault c₁ =>
    rw [hnoting] at hc
    cases hc

theorem Mirrors.of_error {noting : Exec (σ × List HostCall) α} {x : Exec σ α} (h : Mirrors noting x)
    {c c' : Conversation σ} {fault : MachineFault} (hx : x c = .error fault c') :
    ∃ c₁, noting c.noted = .error fault c₁ ∧ c₁.plain = c' := by
  have hc := h c.noted
  rw [Conversation.plain_noted, hx] at hc
  cases hnoting : noting c.noted with
  | ok a₁ c₁ =>
    rw [hnoting] at hc
    cases hc
  | error fault₁ c₁ =>
    rw [hnoting] at hc
    cases hc
    exact ⟨c₁, rfl, rfl⟩

theorem mirrors_current : Mirrors (σ := σ) current current := fun _ => rfl

theorem mirrors_modify (f : Machine → Machine) : Mirrors (σ := σ) (modify f) (modify f) := fun _ => rfl

theorem mirrors_onStack (f : OperandStack → Except MachineFault OperandStack) :
    Mirrors (σ := σ) (onStack f) (onStack f) := by
  intro c
  simp only [onStack, Conversation.machine_plain]
  split <;> rfl

theorem mirrors_lift (result : Except MachineFault α) :
    Mirrors (σ := σ) (lift result) (lift result) := by
  intro c
  cases result <;> rfl

theorem mirrors_push (value : UInt16) : Mirrors (σ := σ) (push value) (push value) := by
  rw [push_eq, push_eq]
  exact mirrors_onStack _

theorem mirrors_write (index value : UInt16) :
    Mirrors (σ := σ) (write index value) (write index value) := by
  rw [write_eq, write_eq]
  exact mirrors_onStack _

theorem mirrors_pop : Mirrors (σ := σ) pop pop := by
  intro c
  simp only [pop, Conversation.machine_plain]
  split <;> rfl

theorem mirrors_pushLocals (count : Nat) : Mirrors (σ := σ) (pushLocals count) (pushLocals count) := by
  induction count with
  | zero => exact mirrors_pure _
  | succ count ih => exact (mirrors_push _).bind fun _ => ih

variable (host : Host σ)

theorem mirrors_readGlobal (access : GlobalAccess) :
    Mirrors (readGlobal host.noting access) (readGlobal host access) := fun _ => rfl

theorem mirrors_writeGlobal (access : GlobalAccess) :
    Mirrors (writeGlobal host.noting access) (writeGlobal host access) := fun _ => rfl

theorem mirrors_invoke (call : IntrinsicCall) :
    Mirrors (invoke host.noting call) (invoke host call) := fun _ => rfl

theorem mirrors_callIntrinsic (pos id : UInt16) :
    Mirrors (callIntrinsic host.noting pos id) (callIntrinsic host pos id) := by
  refine mirrors_current.bind fun m => ?_
  split
  · exact mirrors_throw _
  · dsimp only
    split
    · exact (mirrors_lift _).bind fun _ => mirrors_modify _
    · exact mirrors_invoke host _

theorem mirrors_fetchValue : Mirrors (fetchValue host.noting) (fetchValue host) := by
  refine mirrors_pop.bind fun address => mirrors_current.bind fun m =>
    (mirrors_lift _).bind fun value => ?_
  split
  · exact (mirrors_readGlobal host _).bind fun _ => mirrors_push _
  · exact mirrors_push _

theorem mirrors_storeValue : Mirrors (storeValue host.noting) (storeValue host) := by
  refine mirrors_pop.bind fun value => mirrors_pop.bind fun address => mirrors_current.bind fun m => ?_
  dsimp only
  split
  · exact (mirrors_writeGlobal host _).bind fun _ => mirrors_write _ _
  · exact mirrors_write _ _

theorem mirrors_speak : Mirrors (speak host.noting) (speak host) :=
  mirrors_pop.bind fun _ => mirrors_current.bind fun _ _ => rfl

theorem mirrors_returnFlow : Mirrors (σ := σ) returnFlow returnFlow := by
  refine mirrors_current.bind fun m => ?_
  split
  · exact (mirrors_modify _).bind fun _ => mirrors_pure _
  · exact (mirrors_modify _).bind fun _ => mirrors_pop.bind fun _ => mirrors_pure _

theorem mirrors_perform (pos : UInt16) (opcode : Opcode) (operand : UInt16) :
    Mirrors (perform host.noting pos opcode operand) (perform host pos opcode operand) := by
  cases opcode
  all_goals
    dsimp only [perform]
    repeat' with_reducible first
      | refine Mirrors.bind ?_ fun _ => ?_
      | exact mirrors_pure _
      | exact mirrors_throw _
      | exact mirrors_current
      | exact mirrors_modify _
      | exact mirrors_pop
      | exact mirrors_push _
      | exact mirrors_onStack _
      | exact mirrors_pushLocals _
      | exact mirrors_fetchValue host
      | exact mirrors_storeValue host
      | exact mirrors_speak host
      | exact mirrors_returnFlow
      | exact mirrors_callIntrinsic host _ _
      | split

/-- A step with the noting host is the step with the other, and its notes. -/
theorem mirrors_step : Mirrors (step host.noting) (step host) := by
  have hexecute : Mirrors (execute host.noting) (execute host) := by
    refine mirrors_current.bind fun m => (mirrors_lift _).bind fun fetched =>
      (mirrors_perform host _ _ _).bind fun flow => ?_
    cases flow <;> exact fun _ => rfl
  intro c
  unfold step
  rw [Conversation.machine_plain, hexecute c]
  split
  · rfl
  · cases execute host.noting c with
    | ok outcome c₁ => cases outcome <;> rfl
    | error fault c₁ => rfl

/-! ## What the host hears of but from stores -/

/-- Whatever a host does but for observing a write upholds a property of its state. -/
structure Steady (host : Host σ) (p : σ → Prop) : Prop where
  say : ∀ id text state, p state → p (host.say id text state)
  invoke : ∀ call state, p state → p (host.invoke call state).state
  readGlobal : ∀ access state, p state → p (host.readGlobal access state).2

/-- The state of the host has a property. -/
def HostHas (p : σ → Prop) (c : Conversation σ) : Prop := p c.host

section Steady

variable {p : σ → Prop}

theorem steady_stackless {x : Exec σ α} (hx : Keeps stackless x) : Upholds (HostHas p) x :=
  (hx.comp (·.host)).upholds p

theorem steady_pure (a : α) : Upholds (HostHas p) (pure a : Exec σ α) := steady_stackless (keeps_pure a)

theorem steady_throw (fault : MachineFault) : Upholds (HostHas p) (throw fault : Exec σ α) :=
  steady_stackless (keeps_throw fault)

theorem steady_modify (f : Machine → Machine) : Upholds (HostHas p) (modify f) := fun _ hc => hc

theorem steady_current : Upholds (HostHas p) current := steady_stackless stackless_current

theorem steady_lift (result : Except MachineFault α) : Upholds (HostHas p) (lift result) :=
  steady_stackless (stackless_lift result)

theorem steady_pop : Upholds (HostHas p) pop := steady_stackless stackless_pop

theorem steady_push (value : UInt16) : Upholds (HostHas p) (push value) :=
  steady_stackless (stackless_push value)

theorem steady_write (index value : UInt16) : Upholds (HostHas p) (write index value) :=
  steady_stackless (stackless_write index value)

theorem steady_onStack (f : OperandStack → Except MachineFault OperandStack) :
    Upholds (HostHas p) (onStack f) := steady_stackless (stackless_onStack f)

theorem steady_pushLocals (count : Nat) : Upholds (HostHas p) (pushLocals count) :=
  steady_stackless (stackless_pushLocals count)

variable {host}

theorem steady_readGlobal (hread : ∀ access state, p state → p (host.readGlobal access state).2)
    (access : GlobalAccess) : Upholds (HostHas p) (readGlobal host access) := fun c => hread access c.host

theorem steady_callIntrinsic (hsteady : Steady host p) (pos id : UInt16) :
    Upholds (HostHas p) (callIntrinsic host pos id) := by
  refine steady_current.bind fun m => ?_
  split
  · exact steady_throw _
  · dsimp only
    split
    · exact (steady_lift _).bind fun _ => steady_modify _
    · exact fun c => hsteady.invoke _ c.host

theorem steady_fetchValue (hsteady : Steady host p) : Upholds (HostHas p) (fetchValue host) := by
  refine steady_pop.bind fun address => steady_current.bind fun m => (steady_lift _).bind fun value => ?_
  split
  · exact (steady_readGlobal hsteady.readGlobal _).bind fun _ => steady_push _
  · exact steady_push _

theorem steady_speak (hsteady : Steady host p) : Upholds (HostHas p) (speak host) :=
  steady_pop.bind fun _ => steady_current.bind fun _ c => hsteady.say _ _ c.host

/-- All instructions but a store uphold what the host upholds as long as it observes no write. -/
theorem steady_perform (hsteady : Steady host p) (pos : UInt16) {opcode : Opcode} (operand : UInt16)
    (hsto : opcode ≠ .sto) : Upholds (HostHas p) (perform host pos opcode operand) := by
  cases opcode
  case sto => exact absurd rfl hsto
  all_goals
    dsimp only [perform, returnFlow]
    repeat' with_reducible first
      | refine Upholds.bind ?_ fun _ => ?_
      | exact steady_pure _
      | exact steady_throw _
      | exact steady_current
      | exact steady_pop
      | exact steady_push _
      | exact steady_onStack _
      | exact steady_pushLocals _
      | exact steady_modify _
      | exact steady_fetchValue hsteady
      | exact steady_speak hsteady
      | exact steady_callIntrinsic hsteady _ _
      | split

/-- The start of a conversation asks its host for values and for nothing else. -/
theorem steady_init (hread : ∀ access state, p state → p (host.readGlobal access state).2)
    (globals : List UInt16) : Upholds (HostHas p) (init host globals) := by
  have himport : ∀ entries, Upholds (HostHas p) (importGlobals host entries) := by
    intro entries
    induction entries with
    | nil => exact steady_pure _
    | cons entry rest ih =>
      refine Upholds.bind ?_ fun _ => ih
      exact steady_current.bind fun _ => (steady_lift _).bind fun _ =>
        (steady_readGlobal hread _).bind fun _ => steady_write _ _
  exact (steady_modify _).bind fun _ => steady_current.bind fun _ => (steady_onStack _).bind fun _ =>
    (steady_stackless (stackless_loadGlobals _ _)).bind fun _ => himport _

end Steady

/-! ## Calls of steps -/

/-- The calls that a computation makes of its host, which notes them. -/
def callsOf (noting : Exec (σ × List HostCall) α) (c : Conversation σ) : List HostCall :=
  (final (noting c.noted)).host.2

/-- The calls that a step makes of the host. -/
def stepCalls (c : Conversation σ) : List HostCall := callsOf (step host.noting) c

/-- The calls that a run makes of the host. -/
def runCalls (limit : Nat) (c : Conversation σ) : List HostCall := callsOf (run host.noting limit) c

/-- The sequences of steps from a conversation on, each made where `may` allows it, with the calls of the
host that were made so far.  A step may fault or end the conversation, and is then refused ever after. -/
inductive Trace (may : Machine → Prop) (begin : Conversation σ) :
    List HostCall → Conversation σ → Prop
  | begin : Trace may begin [] begin
  | step {calls : List HostCall} {c : Conversation σ} (trace : Trace may begin calls c)
      (allowed : may c.machine) :
      Trace may begin (calls ++ stepCalls host c) (final (step host c))

end Machine

end Parley
