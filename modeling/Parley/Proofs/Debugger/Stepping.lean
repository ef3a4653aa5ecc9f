import Mathlib.Order.Bounds.Basic
import Parley.Debugger.Session
import Parley.Proofs.Globals.Running
import Parley.Proofs.Machine.Failure
set_option autoImplicit false

/-!
# Stepping in the debugger

A command to go on makes single steps of the machine.  It stops when it has made as many as it was told to, or at the
first step that faults, ends the conversation or leads to a breakpoint, whatever comes first.  Until then the debugger
leaves the machine and the console to the conversation; so what it leaves is what the steps leave, apart from
what it says of the stop, and a conversation that has ended is started again from the globals that it left.
-/

namespace Parley

namespace Machine

variable {σ : Type}

/-- The conversation after a number of steps, each one made whether the one before has failed or not. -/
def steps (host : Host σ) (count : Nat) (c : Conversation σ) : Conversation σ :=
  (fun c => Fallible.final (step host c))^[count] c

/-- The step number `count` faults. -/
def FaultsAt (host : Host σ) (c : Conversation σ) (count : Nat) (fault : MachineFault) : Prop :=
  ∃ before c', count = before + 1 ∧ step host (steps host before c) = .error fault c'

/-- The step number `count` ends the conversation. -/
def EndsAt (host : Host σ) (c : Conversation σ) (count : Nat) : Prop :=
  ∃ before reason c', count = before + 1 ∧ step host (steps host before c) = .ok (.finished reason) c'

variable {host : Host σ} {c c' : Conversation σ} {count : Nat} {fault : MachineFault}

@[simp] theorem steps_zero : steps host 0 c = c := rfl

theorem steps_succ : steps host (count + 1) c = steps host count (Fallible.final (step host c)) := rfl

theorem steps_of_continue (h : step host c = .ok .continue c') :
    steps host (count + 1) c = steps host count c' := by
  rw [steps_succ, h]
  rfl

theorem not_faultsAt_zero : ¬ FaultsAt host c 0 fault := by
  rintro ⟨before, _, h, -⟩
  exact Nat.succ_ne_zero before h.symm

theorem not_endsAt_zero : ¬ EndsAt host c 0 := by
  rintro ⟨before, _, _, h, -⟩
  exact Nat.succ_ne_zero before h.symm

theorem faultsAt_succ : FaultsAt host c (count + 1) fault ↔
    ∃ c', step host (steps host count c) = .error fault c' := by
  constructor
  · rintro ⟨before, c', hcount, h⟩
    cases hcount
    exact ⟨c', h⟩
  · rintro ⟨c', h⟩
    exact ⟨count, c', rfl, h⟩

theorem endsAt_succ : EndsAt host c (count + 1) ↔
    ∃ reason c', step host (steps host count c) = .ok (.finished reason) c' := by
  constructor
  · rintro ⟨before, reason, c', hcount, h⟩
    cases hcount
    exact ⟨reason, c', h⟩
  · rintro ⟨reason, c', h⟩
    exact ⟨count, reason, c', rfl, h⟩

instance (host : Host σ) (c : Conversation σ) : (count : Nat) → Decidable (∃ fault, FaultsAt host c count fault)
  | 0 => isFalse fun ⟨_, h⟩ => not_faultsAt_zero h
  | count + 1 =>
    match hstep : step host (steps host count c) with
    | .error fault c' => isTrue ⟨fault, faultsAt_succ.2 ⟨c', hstep⟩⟩
    | .ok _ _ => isFalse fun ⟨_, h⟩ => by
      obtain ⟨_, hfault⟩ := faultsAt_succ.1 h
      cases hstep.symm.trans hfault

instance (host : Host σ) (c : Conversation σ) : (count : Nat) → Decidable (EndsAt host c count)
  | 0 => isFalse not_endsAt_zero
  | count + 1 =>
    match hstep : step host (steps host count c) with
    | .ok (.finished reason) c' => isTrue (endsAt_succ.2 ⟨reason, c', hstep⟩)
    | .ok .continue _ => isFalse fun h => by
      obtain ⟨_, _, hend⟩ := endsAt_succ.1 h
      cases hstep.symm.trans hend
    | .error _ _ => isFalse fun h => by
      obtain ⟨_, _, hend⟩ := endsAt_succ.1 h
      cases hstep.symm.trans hend

/-- Behind a step with which the conversation goes on, the later steps have the numbers less one. -/
theorem faultsAt_of_continue (h : step host c = .ok .continue c') :
    FaultsAt host c (count + 1) fault ↔ FaultsAt host c' count fault := by
  cases count with
  | zero =>
    refine ⟨fun hfault => ?_, fun hfault => absurd hfault not_faultsAt_zero⟩
    obtain ⟨_, hstep⟩ := faultsAt_succ.1 hfault
    cases h.symm.trans hstep
  | succ count => rw [faultsAt_succ, faultsAt_succ, steps_of_continue h]

theorem endsAt_of_continue (h : step host c = .ok .continue c') :
    EndsAt host c (count + 1) ↔ EndsAt host c' count := by
  cases count with
  | zero =>
    refine ⟨fun hend => ?_, fun hend => absurd hend not_endsAt_zero⟩
    obtain ⟨_, _, hstep⟩ := endsAt_succ.1 hend
    cases h.symm.trans hstep
  | succ count => rw [endsAt_succ, endsAt_succ, steps_of_continue h]

/-- A step that faults leaves the machine at its instruction. -/
theorem ip_of_step_error (h : step host c = .error fault c') : c'.machine.ip = c.machine.ip := by
  have hstep := stepped host c
  rw [h] at hstep
  cases hstep with
  | refused hfinished => rfl
  | unfetched => rfl
  | @faulted opcode operand _ c₁ hgoing hfetch hperform =>
    have hfixed := keeps_perform host c.machine.ip opcode operand c
    rw [hperform] at hfixed
    exact congrArg Fixed.ip hfixed

end Machine

namespace Session

open Machine

/-! ## Commands that make steps -/

/-- The session is carrying out instructions. -/
def isRunning (s : Session) : Bool :=
  match s.phase with
  | .running _ => true
  | _ => false

/-- The session carries out instructions until the second one is left. -/
inductive Settles : Session → Session → Prop
  | rest {s : Session} (still : s.isRunning = false) : Settles s s
  | work {s s' : Session} (running : s.isRunning = true) (later : Settles s.tick s') : Settles s s'

/-- The step number `count` from the session on faults, ends the conversation or leads to a breakpoint. -/
def Stops (s : Session) (count : Nat) : Prop :=
  (∃ fault, FaultsAt Host.console s.conversation count fault) ∨ EndsAt Host.console s.conversation count ∨
    1 ≤ count ∧ s.breakpoints.contains (steps Host.console count s.conversation).machine.ip = true

/-- The memory of the machine has slots for the globals that it is started with. -/
structure Startable (s : Session) : Prop where
  slots : slotCount s.conversation < UInt16.size
  loads : Loads (slotCount s.conversation) s.machine.image s.globals

/-- What is left when `count` steps have led to the conversation `c`, and the last one was the first to stop or was the
last one wanted.  The machine, the globals and the console are as in `c`, but that the debugger says why it has
stopped.  After a fault the machine stands at the instruction.  When the conversation has ended, the globals are those
that it leaves, and it is started from them. -/
structure LeftBySteps (s : Session) (count : Nat) (c : Conversation Console) (s' : Session) : Prop where
  phase : s'.phase = .prompting
  breakpoints : s'.breakpoints = s.breakpoints
  input : s'.console.input = c.host.input
  output : c.host.printed <:+ s'.console.printed
  same : ¬ EndsAt Host.console s.conversation count → s'.machine = c.machine ∧ s'.globals = s.globals
  quiet : ¬ s.Stops count → s'.console = c.host ∧ s'.lastCommand = s.lastCommand
  paused : s.Stops count → ¬ EndsAt Host.console s.conversation count →
    (∀ fault, ¬ FaultsAt Host.console s.conversation count fault) →
    s'.console = c.host.print ("breakpoint at " ++ Text.hexWord c.machine.ip ++ " reached\n")
  faulted : ∀ fault, FaultsAt Host.console s.conversation count fault →
    c.machine.ip = (steps Host.console (count - 1) s.conversation).machine.ip ∧
    s'.console = c.host.print ("fault at ip = " ++ Text.hexWord c.machine.ip ++ ": " ++ fault.message ++ "\n")
  ended : EndsAt Host.console s.conversation count →
    s'.globals = c.machine.savedGlobals s.globals ∧
    init Host.console s'.globals ⟨c.machine, c.host.print
      ("conversation ended (at " ++ Text.hexWord c.machine.ip ++ ").\n\n")⟩ = .ok () s'.conversation

variable {s s' : Session} {bound : Option Nat} {count : Nat} {fault : MachineFault} {c' : Conversation Console}

theorem not_stops_zero : ¬ s.Stops 0 := by
  rintro (⟨_, hfault⟩ | hend | ⟨hpos, -⟩)
  · exact not_faultsAt_zero hfault
  · exact not_endsAt_zero hend
  · exact Nat.not_succ_le_zero 0 hpos

theorem stops_one_of_continue (h : step Host.console s.conversation = .ok .continue c') :
    s.Stops 1 ↔ s.breakpoints.contains c'.machine.ip = true := by
  unfold Stops
  rw [endsAt_of_continue h, steps_of_continue h]
  simp only [faultsAt_of_continue h, not_faultsAt_zero, not_endsAt_zero, exists_false, false_or, Nat.le_refl,
    true_and, steps_zero]

/-- Behind a step that does not stop, the later steps have the numbers less one. -/
theorem stops_of_continue (h : step Host.console s.conversation = .ok .continue c')
    (hfree : ¬ s.breakpoints.contains c'.machine.ip = true) :
    s.Stops (count + 1) ↔ { s with conversation := c' }.Stops count := by
  cases count with
  | zero =>
    rw [stops_one_of_continue h]
    exact ⟨fun hstop => absurd hstop hfree, fun hstop => absurd hstop not_stops_zero⟩
  | succ count =>
    unfold Stops
    rw [endsAt_of_continue h, steps_of_continue h]
    simp only [faultsAt_of_continue h, Nat.le_add_left, true_and]

instance (s : Session) (count : Nat) : Decidable (s.Stops count) :=
  inferInstanceAs (Decidable (_ ∨ _ ∨ _ ∧ _))

theorem isRunning_of_phase (hphase : s.phase = .running bound) : s.isRunning = true := by
  unfold isRunning
  rw [hphase]

theorem tick_of_running (hphase : s.phase = .running bound) :
    s.tick = if bound = some 0 then s.enter .prompting else s.stepMachine bound := by
  unfold tick
  rw [hphase]
  cases bound with
  | none => rfl
  | some wanted =>
    cases wanted with
    | zero => rfl
    | succ wanted => exact (if_neg fun h => Nat.succ_ne_zero wanted (Option.some.inj h)).symm

/-- The second session has the image, as many slots and as many globals as the first. -/
structure Alike (s s' : Session) : Prop where
  image : s'.machine.image = s.machine.image
  slots : slotCount s'.conversation = slotCount s.conversation
  globals : s'.globals.length = s.globals.length

theorem Alike.trans {s'' : Session} (h : s.Alike s') (h' : s'.Alike s'') : s.Alike s'' :=
  ⟨h'.image.trans h.image, h'.slots.trans h.slots, h'.globals.trans h.globals⟩

theorem alike_enter (s : Session) (phase : SessionPhase) : s.Alike (s.enter phase) := ⟨rfl, rfl, rfl⟩

theorem alike_print (s : Session) (text : String) : s.Alike (s.print text) := ⟨rfl, rfl, rfl⟩

theorem alike_of_step (h : Fallible.final (step Host.console s.conversation) = c') :
    s.Alike { s with conversation := c' } := by
  obtain ⟨himage, hslots⟩ := lasting_step Host.console s.conversation
  rw [h] at himage hslots
  exact ⟨himage, hslots, rfl⟩

theorem Startable.of_alike (hs : s.Startable) (h : s.Alike s') : s'.Startable := by
  refine ⟨h.slots.trans_lt hs.slots, ?_⟩
  rw [h.image, h.slots]
  exact ⟨hs.loads.reserved, h.globals.trans_le hs.loads.privates, hs.loads.imported⟩

theorem Startable.succeeds_init (hs : s.Startable) :
    ∃ c', init Host.console s.globals s.conversation = .ok () c' := by
  have hsucceeds : Fallible.Succeeds (init Host.console s.globals) s.conversation :=
    (Machine.succeeds_init hs.slots).2 hs.loads
  obtain ⟨⟨⟩, c', hinit⟩ := hsucceeds
  exact ⟨c', hinit⟩

theorem restart_of_init (h : init Host.console s.globals s.conversation = .ok () c') :
    s.restart = { s with conversation := c' }.enter .prompting := by
  unfold restart
  rw [h]

/-- To start a conversation, the debugger prints what is asked for and reads no line. -/
theorem console_of_init {globals : List UInt16} {c : Conversation Console}
    (h : init Host.console globals c = .ok () c') :
    c'.host.input = c.host.input ∧ c.host.printed <:+ c'.host.printed := by
  have hread : ∀ access console, console.input = c.host.input ∧ c.host.printed <:+ console.printed →
      (Host.console.readGlobal access console).2.input = c.host.input ∧
        c.host.printed <:+ (Host.console.readGlobal access console).2.printed := by
    intro access console hconsole
    change (Console.readGlobal access console).2.input = _ ∧ _ <:+ (Console.readGlobal access console).2.printed
    unfold Console.readGlobal
    split
    · exact ⟨hconsole.1, hconsole.2.trans (List.suffix_cons _ _)⟩
    · exact hconsole
  have hinit := steady_init hread globals c ⟨rfl, List.suffix_refl _⟩
  rw [h] at hinit
  exact hinit

/-! ## What the steps leave -/

theorem LeftBySteps.not_isRunning {c : Conversation Console} (hleft : s.LeftBySteps count c s') :
    s'.isRunning = false := by
  unfold isRunning
  rw [hleft.phase]

theorem leftBySteps_zero (s : Session) : s.LeftBySteps 0 s.conversation (s.enter .prompting) where
  phase := rfl
  breakpoints := rfl
  input := rfl
  output := List.suffix_refl _
  same _ := ⟨rfl, rfl⟩
  quiet _ := ⟨rfl, rfl⟩
  paused h := absurd h not_stops_zero
  faulted _ h := absurd h not_faultsAt_zero
  ended h := absurd h not_endsAt_zero

theorem leftBySteps_of_breakpoint (h : step Host.console s.conversation = .ok .continue c')
    (hbreak : s.breakpoints.contains c'.machine.ip = true) :
    s.LeftBySteps 1 c' ({ s with conversation := c' }.pauseOrGoOn bound) := by
  have hpause : { s with conversation := c' }.pauseOrGoOn bound =
      ({ s with conversation := c' }.print ("breakpoint at " ++ Text.hexWord c'.machine.ip ++ " reached\n")).enter
        .prompting := if_pos hbreak
  rw [hpause]
  constructor
  case phase => rfl
  case breakpoints => rfl
  case input => rfl
  case output => exact List.suffix_cons _ _
  case same =>
    intro _
    exact ⟨rfl, rfl⟩
  case quiet =>
    intro hquiet
    exact absurd ((stops_one_of_continue h).2 hbreak) hquiet
  case paused =>
    intro _ _ _
    rfl
  case faulted =>
    intro fault hfault
    exact absurd ((faultsAt_of_continue h).1 hfault) not_faultsAt_zero
  case ended =>
    intro hend
    exact absurd ((endsAt_of_continue h).1 hend) not_endsAt_zero

theorem leftBySteps_of_fault (h : step Host.console s.conversation = .error fault c') :
    s.LeftBySteps 1 c' ({ s with conversation := c' }.reportFault fault) := by
  have hfault : FaultsAt Host.console s.conversation 1 fault := faultsAt_succ.2 ⟨c', h⟩
  constructor
  case phase => rfl
  case breakpoints => rfl
  case input => rfl
  case output => exact List.suffix_cons _ _
  case same =>
    intro _
    exact ⟨rfl, rfl⟩
  case quiet =>
    intro hquiet
    exact absurd (Or.inl ⟨fault, hfault⟩) hquiet
  case paused =>
    intro _ _ hnone
    exact absurd hfault (hnone fault)
  case faulted =>
    intro fault' hfault'
    obtain ⟨_, hstep⟩ := faultsAt_succ.1 hfault'
    cases h.symm.trans hstep
    exact ⟨ip_of_step_error h, rfl⟩
  case ended =>
    intro hend
    obtain ⟨_, _, hstep⟩ := endsAt_succ.1 hend
    cases h.symm.trans hstep

theorem leftBySteps_of_end (hs : s.Startable) {reason : FinishReason}
    (h : step Host.console s.conversation = .ok (.finished reason) c') :
    s.LeftBySteps 1 c' { s with conversation := c' }.concludeRun := by
  have hend : EndsAt Host.console s.conversation 1 := endsAt_succ.2 ⟨reason, c', h⟩
  have halike := alike_of_step (congrArg Fallible.final h)
  have hagain : Startable { s with
      conversation := ⟨c'.machine, c'.host.print ("conversation ended (at " ++ Text.hexWord c'.machine.ip ++ ").\n\n")⟩
      globals := c'.machine.savedGlobals s.globals } :=
    hs.of_alike ⟨halike.image, halike.slots, GlobalStore.length_savedGlobals _ _⟩
  obtain ⟨c'', hinit⟩ := hagain.succeeds_init
  have hrestart : { s with conversation := c' }.concludeRun =
      { s with conversation := c'', globals := c'.machine.savedGlobals s.globals }.enter .prompting :=
    restart_of_init hinit
  obtain ⟨hinput, hprinted⟩ := console_of_init hinit
  rw [hrestart]
  constructor
  case phase => rfl
  case breakpoints => rfl
  case input => exact hinput
  case output => exact (List.suffix_cons _ _).trans hprinted
  case same =>
    intro hnone
    exact absurd hend hnone
  case quiet =>
    intro hquiet
    exact absurd (Or.inr (Or.inl hend)) hquiet
  case paused =>
    intro _ hnone
    exact absurd hend hnone
  case faulted =>
    intro fault hfault
    obtain ⟨_, hstep⟩ := faultsAt_succ.1 hfault
    cases h.symm.trans hstep
  case ended =>
    intro _
    exact ⟨rfl, hinit⟩

theorem LeftBySteps.of_enter {c : Conversation Console} {phase : SessionPhase}
    (hleft : (s.enter phase).LeftBySteps count c s') : s.LeftBySteps count c s' :=
  ⟨hleft.phase, hleft.breakpoints, hleft.input, hleft.output, hleft.same, hleft.quiet, hleft.paused, hleft.faulted,
    hleft.ended⟩

/-- A step that does not stop, and then the others. -/
theorem LeftBySteps.of_continue {c : Conversation Console} (h : step Host.console s.conversation = .ok .continue c')
    (hfree : ¬ s.breakpoints.contains c'.machine.ip = true)
    (hleft : { s with conversation := c' }.LeftBySteps count c s') : s.LeftBySteps (count + 1) c s' where
  phase := hleft.phase
  breakpoints := hleft.breakpoints
  input := hleft.input
  output := hleft.output
  same hend := hleft.same fun hend' => hend ((endsAt_of_continue h).2 hend')
  quiet hstop := hleft.quiet fun hstop' => hstop ((stops_of_continue h hfree).2 hstop')
  paused hstop hend hfault := hleft.paused ((stops_of_continue h hfree).1 hstop)
    (fun hend' => hend ((endsAt_of_continue h).2 hend'))
    (fun fault hfault' => hfault fault ((faultsAt_of_continue h).2 hfault'))
  faulted fault hfault := by
    have hfault' := (faultsAt_of_continue h).1 hfault
    have hstands := hleft.faulted fault hfault'
    obtain ⟨before, _, rfl, -⟩ := hfault'
    rwa [Nat.add_sub_cancel, steps_of_continue h]
  ended hend := hleft.ended ((endsAt_of_continue h).1 hend)

/-- What bounds the number of steps: the number wanted, if any, and what stops them. -/
def Bounds (s : Session) (wanted : Option Nat) : Set Nat := {count | wanted = some count ∨ s.Stops count}

theorem bounds_of_continue (h : step Host.console s.conversation = .ok .continue c')
    (hfree : ¬ s.breakpoints.contains c'.machine.ip = true) (hmore : bound ≠ some 0) :
    count + 1 ∈ s.Bounds bound ↔ count ∈ { s with conversation := c' }.Bounds (bound.map (· - 1)) := by
  have hbound : bound = some (count + 1) ↔ bound.map (· - 1) = some count := by
    cases bound with
    | none => simp
    | some wanted =>
      have hwanted : wanted ≠ 0 := fun hzero => hmore (congrArg some hzero)
      simp only [Option.some.injEq, Option.map_some]
      omega
  exact or_congr hbound (stops_of_continue h hfree)

/-- A step stops, or the session goes on behind it. -/
theorem stepMachine_stops_or_goesOn (hs : s.Startable) (bound : Option Nat) :
    s.Stops 1 ∧ s.LeftBySteps 1 (steps Host.console 1 s.conversation) (s.stepMachine bound) ∨
      ∃ c', step Host.console s.conversation = .ok .continue c' ∧ ¬ s.breakpoints.contains c'.machine.ip = true ∧
        s.stepMachine bound = { s with conversation := c' }.enter (.running (bound.map (· - 1))) := by
  unfold stepMachine
  rw [steps_succ, steps_zero]
  cases hstep : step Host.console s.conversation with
  | error fault c' => exact Or.inl ⟨Or.inl ⟨fault, faultsAt_succ.2 ⟨c', hstep⟩⟩, leftBySteps_of_fault hstep⟩
  | ok outcome c' =>
    cases outcome with
    | finished reason =>
      exact Or.inl ⟨Or.inr (Or.inl (endsAt_succ.2 ⟨reason, c', hstep⟩)), leftBySteps_of_end hs hstep⟩
    | «continue» =>
      by_cases hbreak : s.breakpoints.contains c'.machine.ip = true
      · exact Or.inl ⟨(stops_one_of_continue hstep).2 hbreak, leftBySteps_of_breakpoint hstep hbreak⟩
      · exact Or.inr ⟨c', rfl, hbreak, if_neg hbreak⟩

/-- The least of the bounds is the number of steps that are made.  The induction is on this number; after each step that
does not stop, the bounds are those of before, less one. -/
theorem settles_running (hs : s.Startable) (hphase : s.phase = .running bound)
    (hleast : IsLeast (s.Bounds bound) count) :
    ∃ s', Settles s s' ∧ s.LeftBySteps count (steps Host.console count s.conversation) s' := by
  induction count generalizing s bound with
  | zero =>
    have hbound : bound = some 0 := hleast.1.resolve_right not_stops_zero
    have htick : s.tick = s.enter .prompting := (tick_of_running hphase).trans (if_pos hbound)
    refine ⟨s.enter .prompting, .work (isRunning_of_phase hphase) ?_, leftBySteps_zero s⟩
    rw [htick]
    exact .rest rfl
  | succ count ih =>
    have hmore : bound ≠ some 0 := by
      intro hzero
      exact absurd (hleast.2 (Or.inl hzero)) (Nat.not_succ_le_zero count)
    have htick : s.tick = s.stepMachine bound := (tick_of_running hphase).trans (if_neg hmore)
    rcases stepMachine_stops_or_goesOn hs bound with ⟨hstop, hleft⟩ | ⟨c', hstep, hfree, hon⟩
    · -- Where the first step stops, it is the least bound.
      have hzero : count = 0 := Nat.le_zero.1 (Nat.le_of_succ_le_succ (hleast.2 (Or.inr hstop)))
      subst hzero
      refine ⟨s.stepMachine bound, .work (isRunning_of_phase hphase) ?_, hleft⟩
      rw [htick]
      exact .rest hleft.not_isRunning
    · have hleast' : IsLeast ({ s with conversation := c' }.Bounds (bound.map (· - 1))) count := by
        refine ⟨(bounds_of_continue hstep hfree hmore).1 hleast.1, fun other hother => ?_⟩
        exact Nat.le_of_succ_le_succ (hleast.2 ((bounds_of_continue hstep hfree hmore).2 hother))
      have hnext : ({ s with conversation := c' }.enter (.running (bound.map (· - 1)))).Startable :=
        hs.of_alike ((alike_of_step (congrArg Fallible.final hstep)).trans (alike_enter _ _))
      obtain ⟨s', hsettles, hleft⟩ := ih hnext rfl hleast'
      refine ⟨s', .work (isRunning_of_phase hphase) ?_, ?_⟩
      · rw [htick, hon]
        exact hsettles
      · rw [steps_of_continue hstep]
        exact hleft.of_enter.of_continue hstep hfree

/-! ## Steps behind steps -/

/-- Where no step stops, nothing is left but what the steps leave. -/
theorem LeftBySteps.eq_of_not_stops {c : Conversation Console} (hleft : s.LeftBySteps count c s')
    (hfree : ¬ s.Stops count) : s' = { s with conversation := c }.enter .prompting := by
  obtain ⟨hmachine, hglobals⟩ := hleft.same fun hend => hfree (Or.inr (Or.inl hend))
  obtain ⟨hconsole, hlast⟩ := hleft.quiet hfree
  obtain ⟨conversation, breakpoints, globals, lastCommand, phase⟩ := s'
  have hconversation : conversation = c := by
    obtain ⟨machine, host⟩ := conversation
    exact congrArg₂ Conversation.mk hmachine hconsole
  have hbreakpoints : breakpoints = s.breakpoints := hleft.breakpoints
  have hphase : phase = .prompting := hleft.phase
  rw [hconversation, hbreakpoints, hphase, show globals = s.globals from hglobals,
    show lastCommand = s.lastCommand from hlast]
  rfl

theorem Settles.unique {s'' : Session} (h : Settles s s') (h' : Settles s s'') : s' = s'' := by
  induction h with
  | rest still =>
    cases h' with
    | rest => rfl
    | work running => exact absurd running (Bool.eq_false_iff.1 still)
  | work running _ ih =>
    cases h' with
    | rest still => exact absurd running (Bool.eq_false_iff.1 still)
    | work _ later => exact ih later

theorem settles_iff_tick (hphase : s.phase = .running bound) : Settles s s' ↔ Settles s.tick s' := by
  constructor
  · intro h
    cases h with
    | rest still => exact absurd (isRunning_of_phase hphase) (Bool.eq_false_iff.1 still)
    | work _ later => exact later
  · exact .work (isRunning_of_phase hphase)

/-- As long as no step stops, the session goes through the conversations that the steps lead to. -/
theorem settles_steps_iff {first second : Nat} (hs : s.Startable) (hphase : s.phase = .running (some (first + second)))
    (hfree : ∀ count ≤ first, ¬ s.Stops count) :
    Settles s s' ↔ Settles
      ({ s with conversation := steps Host.console first s.conversation }.enter (.running (some second))) s' := by
  induction first generalizing s with
  | zero =>
    have hsame : s = s.enter (.running (some second)) := by
      rw [Nat.zero_add] at hphase
      rw [← hphase]
      rfl
    exact iff_of_eq (congrArg (Settles · s') hsame)
  | succ first ih =>
    have hmore : some (first + 1 + second) ≠ some 0 := by
      rw [Nat.add_right_comm]
      simp
    rw [settles_iff_tick hphase, tick_of_running hphase, if_neg hmore]
    rcases stepMachine_stops_or_goesOn hs (some (first + 1 + second)) with ⟨hstop, -⟩ | ⟨c', hstep, hfree', hon⟩
    · exact absurd hstop (hfree 1 (Nat.le_add_left 1 first))
    · have hnext : ({ s with conversation := c' }.enter (.running (some (first + second)))).Startable :=
        hs.of_alike ((alike_of_step (congrArg Fallible.final hstep)).trans (alike_enter _ _))
      have hbound : (some (first + 1 + second)).map (· - 1) = some (first + second) := by
        rw [Option.map_some, Nat.add_right_comm, Nat.add_sub_cancel]
      rw [hon, hbound, steps_of_continue hstep]
      refine ih hnext rfl fun count hcount => ?_
      exact fun hstop => hfree (count + 1) (Nat.succ_le_succ hcount) ((stops_of_continue hstep hfree').2 hstop)

end Session

end Parley
