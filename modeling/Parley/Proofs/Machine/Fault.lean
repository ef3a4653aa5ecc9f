import Parley.Proofs.Machine.Memory
set_option autoImplicit false

/-!
# Faults and endings are final

A step that faults has changed the stack and the number of open calls at most: the machine still stands at
the instruction, and the host has heard nothing of it.  For a store this rests on the globals having slots,
which the start of the conversation makes sure of.  Once a step has faulted or ended the conversation, the
machine refuses to go on.
-/

namespace Parley.Machine

open Fallible

variable {σ α : Type}

/-! ## Clean faults -/

/-- The conversation apart from the stack and the number of open calls. -/
def bare (c : Conversation σ) : Conversation σ :=
  { c with machine := { c.machine with stack := .ofSize 0, depth := 0 } }

theorem bare_of_stackless {x : Exec σ α} (hx : Keeps stackless x) : Keeps bare x :=
  hx.comp fun c => { c with machine := { c.machine with depth := 0 } }

theorem bare_current : Keeps bare (current (σ := σ)) := bare_of_stackless stackless_current

theorem bare_pop : Keeps bare (pop (σ := σ)) := bare_of_stackless stackless_pop

theorem bare_push (value : UInt16) : Keeps bare (push (σ := σ) value) :=
  bare_of_stackless (stackless_push value)

theorem bare_returnFlow : Keeps bare (returnFlow (σ := σ)) := by
  refine bare_current.bind fun m => ?_
  split
  · exact Keeps.bind (fun _ => rfl) fun _ => keeps_pure _
  · exact Keeps.bind (fun _ => rfl) fun _ => bare_pop.bind fun _ => keeps_pure _

theorem safe_modify (f : Machine → Machine) : Safe (modify (σ := σ) f) := by
  intro c fault c' h
  cases h

variable (host : Host σ)

theorem cleanly_callIntrinsic (pos id : UInt16) : FaultsCleanly bare (callIntrinsic host pos id) := by
  refine bare_current.bind_faultsCleanly fun m => ?_
  split
  · exact (keeps_throw _).faultsCleanly
  · dsimp only
    split
    · exact (bare_of_stackless (stackless_lift _)).bind_faultsCleanly fun _ =>
        (safe_modify _).faultsCleanly
    · refine Safe.faultsCleanly ?_
      intro c fault c' h
      cases h

theorem cleanly_speak : FaultsCleanly bare (speak host) := by
  refine bare_pop.bind_faultsCleanly fun _ => bare_current.bind_faultsCleanly fun _ => ?_
  refine Safe.faultsCleanly ?_
  intro c fault c' h
  cases h

/-- A value is pushed in place of its address, so there is a slot for it once the host has given it. -/
theorem cleanly_fetchValue : FaultsCleanly bare (fetchValue host) := by
  intro c fault c' h
  unfold fetchValue at h
  cases hpop : c.machine.stack.pop with
  | error fault₁ =>
    rw [bind_of_error (pop_of_error hpop)] at h
    cases h
    rfl
  | ok popped =>
    obtain ⟨address, stack⟩ := popped
    have hpush : ∀ value (state : σ),
        ∃ c₂, push value { c.withStack stack with host := state } = .ok () c₂ :=
      fun value state => ⟨_, if_pos (OperandStack.hasSlot_of_pop hpop)⟩
    rw [pop_bind_of_ok hpop, current_bind] at h
    cases hget : (c.withStack stack).machine.stack.get address with
    | error fault₁ =>
      rw [lift_bind_of_error hget] at h
      cases h
      rfl
    | ok value =>
      rw [lift_bind_of_ok hget] at h
      split at h
      · obtain ⟨c₂, hc₂⟩ := hpush _ _
        cases hc₂.symm.trans h
      · obtain ⟨c₂, hc₂⟩ := hpush value c.host
        cases hc₂.symm.trans h

/-- An instruction that faults has changed the stack and the number of open calls at most. -/
theorem cleanly_perform {pos operand : UInt16} {opcode : Opcode} {fault : MachineFault}
    {c c' : Conversation σ} (hfit : GlobalsFit c)
    (h : perform host pos opcode operand c = .error fault c') : bare c' = bare c := by
  by_cases hsto : opcode = .sto
  · subst hsto
    cases hstore : storeValue host c with
    | ok _ c₁ => cases (bind_of_ok hstore).symm.trans h
    | error fault₁ c₁ =>
      cases (bind_of_error hstore).symm.trans h
      obtain ⟨stack, rfl, -⟩ := storeValue_eq_error hfit hstore
      rfl
  · suffices hclean : FaultsCleanly bare (perform host pos opcode operand) from hclean c fault c' h
    cases opcode
    case sto => exact absurd rfl hsto
    all_goals
      dsimp only [perform]
      repeat' with_reducible first
        | exact Safe.faultsCleanly ((safe_modify _).bind fun _ => safe_pure _)
        | exact (cleanly_callIntrinsic host _ _).bind_safe fun _ => safe_pure _
        | exact (cleanly_fetchValue host).bind_safe fun _ => safe_pure _
        | exact (cleanly_speak host).bind_safe fun _ => safe_pure _
        | exact (safe_pure _).faultsCleanly
        | exact (keeps_throw _).faultsCleanly
        | exact bare_returnFlow.faultsCleanly
        | refine Keeps.bind_faultsCleanly ?_ fun _ => ?_
        | exact keeps_pure _
        | exact keeps_throw _
        | exact bare_current
        | exact bare_pop
        | exact bare_push _
        | exact bare_of_stackless (stackless_onStack _)
        | exact bare_of_stackless (stackless_pushLocals _)
        | split

/-! ## Steps that fault -/

theorem finish_of_finished {c : Conversation σ} (h : c.machine.finished = true) : finish c = c := by
  unfold finish
  rw [← h]

/-- What a step that faults leaves behind. -/
structure LeftByFault (c c' : Conversation σ) : Prop where
  ip : c'.machine.ip = c.machine.ip
  bp : c'.machine.bp = c.machine.bp
  result : c'.machine.result = c.machine.result
  image : c'.machine.image = c.machine.image
  strings : c'.machine.strings = c.machine.strings
  host : c'.host = c.host
  finished : c'.machine.finished = true

variable {host} {c c' : Conversation σ}

theorem leftByFault_of_bare (h : bare c' = bare (finish c)) : LeftByFault c c' := by
  have hmachine : (bare c').machine = (bare (finish c)).machine := congrArg (·.machine) h
  have hhost : (bare c').host = (bare (finish c)).host := congrArg (·.host) h
  exact ⟨congrArg (·.ip) hmachine, congrArg (·.bp) hmachine, congrArg (·.result) hmachine,
    congrArg (·.image) hmachine, congrArg (·.strings) hmachine, hhost,
    congrArg (·.finished) hmachine⟩

/-- A step that faults has changed the stack and the number of open calls at most. -/
theorem leftByFault_step {fault : MachineFault} (hfit : GlobalsFit c)
    (h : step host c = .error fault c') : LeftByFault c c' := by
  refine leftByFault_of_bare ?_
  have hstep := stepped host c
  rw [h] at hstep
  cases hstep with
  | refused hfinished => rw [finish_of_finished hfinished]
  | unfetched hgoing hfetch => rfl
  | faulted hgoing hfetch hperform => exact congrArg finish (cleanly_perform host hfit hperform)

/-- The host hears nothing of a step that faults. -/
theorem stepCalls_of_fault {fault : MachineFault} (hfit : GlobalsFit c)
    (h : step host c = .error fault c') : stepCalls host c = [] := by
  obtain ⟨c₁, hstep, -⟩ := (mirrors_step host).of_error h
  have hhost : c₁.host = (c.host, []) := (leftByFault_step (c := c.noted) hfit hstep).host
  unfold stepCalls callsOf
  rw [hstep]
  exact congrArg Prod.snd hhost

/-! ## Steps that end the conversation -/

/-- What a step that ends the conversation leaves behind: an instruction that ends it, or the return of the
outermost function. -/
structure LeftByEnd (c c' : Conversation σ) (reason : FinishReason) : Prop where
  ip : c'.machine.ip = c.machine.ip
  finished : c'.machine.finished = true
  ending : ∃ opcode operand, fetch c.machine.image.code c.machine.ip = .ok (opcode, operand) ∧
    (opcode = .exitOp ∧ reason = .exit ∨
      opcode = .ret ∧ c.machine.depth ≤ 1 ∧ reason = .return)

theorem perform_finish {pos operand : UInt16} {opcode : Opcode} {reason : FinishReason}
    (h : perform host pos opcode operand c = .ok (.finish reason) c') :
    opcode = .exitOp ∧ reason = .exit ∨
      opcode = .ret ∧ c.machine.depth ≤ 1 ∧ reason = .return := by
  cases hon : leadsOn opcode with
  | true => cases perform_leadsOn hon _ _ _ h
  | false =>
    cases opcode
    case exitOp => exact Or.inl ⟨rfl, (Flow.finish.inj (pure_eq_ok.1 h).1).symm⟩
    case ret =>
      rcases perform_ret h with ⟨hdepth, hflow⟩ | ⟨-, caller, stack, -, hflow⟩
      · exact Or.inr ⟨rfl, hdepth, Flow.finish.inj hflow⟩
      · cases hflow
    case jmp => cases (pure_eq_ok.1 h).1
    case bra => cases (pure_eq_ok.1 h).1
    case call => cases perform_call _ _ _ h
    case beq =>
      obtain ⟨value, stack, -, hflow⟩ := perform_beq h
      split at hflow <;> cases hflow
    case bne =>
      obtain ⟨value, stack, -, hflow⟩ := perform_bne h
      split at hflow <;> cases hflow
    all_goals exact absurd hon (by decide)

theorem leftByEnd_step {reason : FinishReason} (h : step host c = .ok (.finished reason) c') :
    LeftByEnd c c' reason := by
  have hstep := stepped host c
  rw [h] at hstep
  cases hstep with
  | @ended opcode operand _ c₁ hgoing hfetch hperform =>
    have hfixed := (keeps_perform host _ _ _).of_ok hperform
    exact ⟨congrArg Fixed.ip hfixed, rfl, opcode, operand, hfetch, perform_finish hperform⟩

/-! ## Finished machines -/

variable (host) in
/-- What any number of further steps and runs lead to. -/
inductive Later (c : Conversation σ) : Conversation σ → Prop
  | now : Later c c
  | step {c' : Conversation σ} (later : Later c c') : Later c (final (step host c'))
  | run {c' : Conversation σ} (limit : Nat) (later : Later c c') : Later c (final (run host limit c'))

variable (host) in
/-- The conversation is over: further steps and runs change nothing, are refused, and make no calls. -/
structure Over (c : Conversation σ) : Prop where
  same : ∀ c', Later host c c' → c' = c
  step : step host c = .error .finished c
  stepCalls : stepCalls host c = []
  run : ∀ limit, run host (limit + 1) c = .error .finished c
  runCalls : ∀ limit, runCalls host (limit + 1) c = []

theorem step_of_finished (h : c.machine.finished = true) : step host c = .error .finished c := by
  unfold Machine.step
  rw [if_pos h]

theorem run_of_finished (h : c.machine.finished = true) (limit : Nat) :
    run host (limit + 1) c = .error .finished c := by
  unfold Machine.run runFrom
  rw [step_of_finished h]

theorem over_of_finished (h : c.machine.finished = true) : Over host c where
  same c' hlater := by
    induction hlater with
    | now => rfl
    | step later ih => rw [ih, step_of_finished h, final_error]
    | run limit later ih =>
      rw [ih]
      cases limit with
      | zero => rfl
      | succ limit => rw [run_of_finished h, final_error]
  step := step_of_finished h
  stepCalls := by
    unfold Machine.stepCalls callsOf
    rw [step_of_finished (c := c.noted) h]
    rfl
  run := run_of_finished h
  runCalls limit := by
    unfold Machine.runCalls callsOf
    rw [run_of_finished (c := c.noted) h]
    rfl

/-- In whatever state a conversation is that has started: a step that faults leaves the machine at the
instruction, with its registers, code and strings as they were, and the host has not been called; a step
that ends the conversation leaves it at the ending instruction; and after either the conversation is over. -/
theorem faults_and_ends_final {globals : List UInt16} {before begin : Conversation σ}
    (hinit : init host globals before = .ok () begin) {calls : List HostCall}
    (htrace : Trace host (fun _ => True) begin calls c) :
    (∀ fault c', step host c = .error fault c' →
      LeftByFault c c' ∧ stepCalls host c = [] ∧ Over host c') ∧
    ∀ reason c', step host c = .ok (.finished reason) c' →
      LeftByEnd c c' reason ∧ Over host c' := by
  have hfit : GlobalsFit c := htrace.globalsFit (fit_of_init hinit).1
  constructor
  · intro fault c' hstep
    have hleft := leftByFault_step hfit hstep
    exact ⟨hleft, stepCalls_of_fault hfit hstep, over_of_finished hleft.finished⟩
  · intro reason c' hstep
    have hleft := leftByEnd_step hstep
    exact ⟨hleft, over_of_finished hleft.finished⟩

/-- A conversation with one global, in which 7 is stored at an address behind the end of a small memory. -/
def farStore : Image := { Image.ofCode #[22, 9, 22, 7, 32] with reservedGlobals := 1 }

/-- A machine with a small stack, before it is started. -/
def farStoreMachine : Machine := { ofImage farStore [] with stack := .ofSize 4 }

theorem steps_farStore :
    ∃ begin c₁ c₂ c' : Conversation Unit,
      init Host.silent [] ⟨farStoreMachine, ()⟩ = .ok () begin ∧
      final (step Host.silent begin) = c₁ ∧ final (step Host.silent c₁) = c₂ ∧
      step Host.silent c₂ = .error (.stackOverflow 9) c' ∧
      c₂.machine.stack.sp = 2 ∧ c'.machine.stack.sp = 0 :=
  ⟨_, _, _, _, rfl, rfl, rfl, rfl, rfl, rfl⟩

theorem faults_and_ends_final_farStore :
    ∃ (begin c c' : Conversation Unit) (calls : List HostCall),
      init Host.silent [] ⟨farStoreMachine, ()⟩ = .ok () begin ∧
      Trace Host.silent (fun _ => True) begin calls c ∧
      step Host.silent c = .error (.stackOverflow 9) c' ∧
      c.machine.stack.sp = 2 ∧ c'.machine.stack.sp = 0 ∧
      LeftByFault c c' ∧ stepCalls Host.silent c = [] ∧ Over Host.silent c' := by
  obtain ⟨begin, c₁, c₂, c', hinit, h₁, h₂, hfault, hsp, hsp'⟩ := steps_farStore
  have hstart : Trace Host.silent (fun _ => True) begin [] begin := .begin
  have htrace := hstart.step trivial
  rw [h₁] at htrace
  have htrace₂ := htrace.step trivial
  rw [h₂] at htrace₂
  exact ⟨begin, c₂, c', _, hinit, htrace₂, hfault, hsp, hsp',
    (faults_and_ends_final hinit htrace₂).1 _ c' hfault⟩

end Parley.Machine
