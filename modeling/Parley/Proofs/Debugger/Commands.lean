import Mathlib.Order.Nat
import Parley.Proofs.Debugger.Stepping
set_option autoImplicit false

/-!
# The commands of a debugging session

Whatever was done in a session, it has the image that it was started with, and a memory with slots for its globals; so
the conversation can always be started again.  A line that is read is a command.  A command to go on makes steps of the
machine; of the others only those to reset and to exit do more than to print something or to mark a position.
-/

namespace Parley

/-- The command is carried out without the machine. -/
def DebugCommand.isIdle : DebugCommand → Bool
  | .step _ | .continue | .reset | .exit => false
  | _ => true

namespace Session

open Machine

/-! ## Sessions -/

/-- What becomes of a session in the course of its work, where the user may give more lines at any time. -/
inductive Reached : Session → Prop
  | start (image : Image) (strings : List String) (globals : List UInt16) (console : Console) :
      Reached (Session.start image strings globals console)
  | tick {s : Session} (h : Reached s) : Reached s.tick
  | supply {s : Session} (lines : List (Option String)) (h : Reached s) : Reached (s.supply lines)

variable {s s' s'' : Session}

theorem alike_restart (s : Session) : s.Alike s.restart := by
  have hlasting := lasting_init Host.console s.globals s.conversation
  unfold restart
  split
  all_goals
    rename_i heq
    rw [heq] at hlasting
    exact ⟨congrArg (·.1.image) hlasting, congrArg Prod.snd hlasting, rfl⟩

theorem alike_stepMachine (s : Session) (bound : Option Nat) : s.Alike (s.stepMachine bound) := by
  unfold stepMachine
  split
  all_goals
    rename_i heq
    refine (alike_of_step (congrArg Fallible.final heq)).trans ?_
  · unfold pauseOrGoOn
    dsimp only
    split
    · exact ⟨rfl, rfl, rfl⟩
    · exact alike_enter _ _
  · refine Alike.trans ?_ (alike_restart _)
    exact ⟨rfl, rfl, GlobalStore.length_savedGlobals _ _⟩
  · exact ⟨rfl, rfl, rfl⟩

/-! ## Lines that are commands -/

/-- The session that has prompted for a command and read a line, of which the command is carried out. -/
def hears (s : Session) (line : String) (rest : List (Option String)) : Session :=
  { s.prompt.withConsole { s.prompt.console with input := rest } with lastCommand := s.commandText line }

theorem readCommand_of_line {line : String} {rest : List (Option String)}
    (hinput : s.console.input = some line :: rest) :
    s.readCommand = (s.hears line rest).execute (.ofText (s.commandText line)) := by
  have hread : s.prompt.console.readLine = (some line, { s.prompt.console with input := rest }) := by
    unfold Console.readLine
    rw [show s.prompt.console.input = some line :: rest from hinput]
  unfold readCommand
  dsimp only
  rw [hread]
  rfl

/-- Commands that do without the machine leave it, the globals and the lines to be read. -/
theorem execute_of_isIdle {command : DebugCommand} (h : command.isIdle = true) (s : Session) :
    (s.execute command).machine = s.machine ∧ (s.execute command).globals = s.globals ∧
      (s.execute command).console.input = s.console.input ∧ (s.execute command).phase = s.phase := by
  cases command with
  | step count => cases h
  | «continue» => cases h
  | reset => cases h
  | exit => cases h
  | breakAt pos =>
    cases pos with
    | none => exact ⟨rfl, rfl, rfl, rfl⟩
    | some pos =>
      unfold execute toggleBreakpoint
      dsimp only
      split <;> exact ⟨rfl, rfl, rfl, rfl⟩
  | _ => exact ⟨rfl, rfl, rfl, rfl⟩

theorem alike_execute (s : Session) (command : DebugCommand) : s.Alike (s.execute command) := by
  by_cases hidle : command.isIdle = true
  · obtain ⟨hmachine, hglobals, -, -⟩ := execute_of_isIdle hidle s
    exact ⟨congrArg Machine.image hmachine, congrArg (fun m : Machine => m.stack.slots.size) hmachine,
      congrArg List.length hglobals⟩
  · cases command
    case step => exact alike_enter _ _
    case «continue» => exact alike_enter _ _
    case exit => exact alike_enter _ _
    case reset =>
      have hrestart := (alike_print s "restarting conversation, deleting all breakpoints.\n").trans (alike_restart _)
      unfold execute reset
      dsimp only
      split
      · exact hrestart.trans ⟨rfl, rfl, rfl⟩
      · exact hrestart
    all_goals exact absurd rfl hidle

theorem alike_readCommand (s : Session) : s.Alike s.readCommand := by
  unfold readCommand
  dsimp only
  split
  · exact ⟨rfl, rfl, rfl⟩
  · refine Alike.trans ?_ (alike_execute _ _)
    exact ⟨rfl, rfl, rfl⟩

theorem alike_tick (s : Session) : s.Alike s.tick := by
  unfold tick
  split
  · exact alike_readCommand s
  · exact alike_enter s _
  · exact alike_stepMachine s _
  · exact ⟨rfl, rfl, rfl⟩

theorem isOver_or_startable_restart (hslots : slotCount s.conversation < UInt16.size) :
    s.restart.isOver = true ∨ s.restart.Startable := by
  cases hinit : init Host.console s.globals s.conversation with
  | ok _ c =>
    have hloads := (Machine.succeeds_init hslots).1 ⟨(), c, hinit⟩
    exact Or.inr (Startable.of_alike ⟨hslots, hloads⟩ (alike_restart s))
  | error fault c =>
    left
    unfold restart
    rw [hinit]
    rfl

theorem tick_of_isOver (h : s.isOver = true) : s.tick = s := by
  unfold isOver at h
  unfold tick
  split at h
  · rename_i hphase
    rw [hphase]
  · cases h

/-- As long as a session is not over, its conversation can be started again. -/
theorem Reached.startable (h : Reached s) : s.isOver = true ∨ s.Startable := by
  induction h with
  | start image strings globals console =>
    have hslots : slotCount ⟨ofImage image strings, console⟩ < UInt16.size := by
      rw [show slotCount ⟨ofImage image strings, console⟩ = OperandStack.standardSize from Array.size_replicate]
      decide
    have hrestart := isOver_or_startable_restart
      (s := ⟨⟨ofImage image strings, console⟩, .empty, globals, "", .prompting⟩) hslots
    unfold Session.start
    dsimp only
    split
    · exact hrestart.imp id fun hs => hs.of_alike (alike_print _ _)
    · exact hrestart
  | tick h ih =>
    rcases ih with hover | hs
    · left
      rwa [tick_of_isOver hover]
    · exact Or.inr (hs.of_alike (alike_tick _))
  | supply lines h ih => exact ih.imp id fun hs => hs.of_alike ⟨rfl, rfl, rfl⟩

/-! ## What commands do -/

theorem exists_isLeast_bounds (s : Session) (wanted : Nat) : ∃ count, IsLeast (s.Bounds (some wanted)) count := by
  classical
  have hwanted : ∃ count, count ∈ s.Bounds (some wanted) := ⟨wanted, Or.inl rfl⟩
  exact ⟨Nat.find hwanted, Nat.isLeast_find hwanted⟩

/-- A command to go on makes steps, up to the least bound of their number. -/
theorem running_makes_steps (hs : s.Startable) {wanted : Option Nat} {count : Nat}
    (hleast : IsLeast (s.Bounds wanted) count) :
    ∃ s', Settles (s.enter (.running wanted)) s' ∧
      s.LeftBySteps count (steps Host.console count s.conversation) s' := by
  have hrun : (s.enter (.running wanted)).Startable := hs.of_alike (alike_enter s _)
  obtain ⟨s', hsettles, hleft⟩ := settles_running hrun rfl hleast
  exact ⟨s', hsettles, hleft.of_enter⟩

theorem step_step (hs : s.Startable) {first second : Nat} (hfree : ∀ count ≤ first, ¬ s.Stops count)
    (hfirst : Settles (s.execute (.step first)) s') :
    Settles (s'.execute (.step second)) s'' ↔ Settles (s.execute (.step (first + second))) s'' := by
  have hrun : (s.enter (.running (some (first + second)))).Startable := hs.of_alike (alike_enter s _)
  have hleast : IsLeast (s.Bounds (some first)) first := by
    refine ⟨Or.inl rfl, fun count hcount => ?_⟩
    rcases hcount with hcount | hstop
    · exact Nat.le_of_eq (Option.some.inj hcount)
    · exact Nat.le_of_not_le fun hle => hfree count hle hstop
  obtain ⟨t, hsettles, hleft⟩ := running_makes_steps hs hleast
  have hleftBy := hleft.eq_of_not_stops (hfree first (Nat.le_refl first))
  rw [hsettles.unique hfirst] at hleftBy
  rw [hleftBy]
  exact (settles_steps_iff hrun rfl hfree).symm

/-- A conversation with one global, which stores 7 in it and ends. -/
def sevenStore : Image := { Image.ofCode #[22, 0, 22, 7, 32, 38] with reservedGlobals := 1 }

/-- A session about it, in which the user is about to continue. -/
def sevenStoreSession : Session := .start sevenStore [] [5] ⟨[some "cont"], [], none, false⟩

end Session

end Parley
