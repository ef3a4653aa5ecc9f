import Parley.Debugger.Command
import Parley.Debugger.Console
import Parley.Debugger.View
set_option autoImplicit false

/-!
# Debugging sessions

A session alternates between reading a command and, after a command to go on, carrying out
instructions.  `Session.tick` does one piece of this work: one command, or one instruction.  A session
is over once its phase is `ended`.
-/

namespace Parley

/-- What a session does next. -/
inductive SessionPhase where
  /-- Read a command. -/
  | prompting
  /-- Carry out instructions, so many at most. -/
  | running (remaining : Option Nat)
  /-- Nothing more, because the user is done or the conversation cannot be started. -/
  | ended (fault : Option MachineFault)
  deriving DecidableEq

/-- A debugging session. -/
structure Session where
  conversation : Conversation Console
  /-- The positions at which instructions are no longer carried out. -/
  breakpoints : SortedSet UInt16
  /-- The private globals with which the conversation starts. -/
  globals : List UInt16
  /-- The command that an empty line repeats. -/
  lastCommand : String
  phase : SessionPhase

namespace Session

/-- The debugged machine. -/
def machine (s : Session) : Machine := s.conversation.machine

/-- The console of the session. -/
def console (s : Session) : Console := s.conversation.host

/-- Change the console. -/
def withConsole (s : Session) (console : Console) : Session :=
  { s with conversation := { s.conversation with host := console } }

/-- Print a piece of text. -/
def print (s : Session) (text : String) : Session := s.withConsole (s.console.print text)

/-- Go over to another phase. -/
def enter (s : Session) (phase : SessionPhase) : Session := { s with phase }

/-! ## Start -/

/-- Start the conversation from the globals of the session. -/
def restart (s : Session) : Session :=
  match Machine.init Host.console s.globals s.conversation with
  | .ok _ c => { s with conversation := c }.enter .prompting
  | .error fault c => { s with conversation := c }.enter (.ended (some fault))

/-- A session at its start. -/
def start (image : Image) (strings : List String) (globals : List UInt16) (console : Console) :
    Session :=
  let s : Session := {
    conversation := ⟨Machine.ofImage image strings, console⟩
    breakpoints := .empty
    globals
    lastCommand := ""
    phase := .prompting }
  let s := s.restart
  if s.phase = .prompting then s.print "type \"help\" to see all commands\n" else s

/-! ## Instructions -/

/-- The conversation is over: keep its globals and start it again. -/
def concludeRun (s : Session) : Session :=
  let s := s.print ("conversation ended (at " ++ Text.hexWord s.machine.ip ++ ").\n\n")
  { s with globals := s.machine.savedGlobals s.globals }.restart

/-- An instruction faulted: say so, and let an empty line not repeat the command. -/
def reportFault (s : Session) (fault : MachineFault) : Session :=
  let s := s.print
    ("fault at ip = " ++ Text.hexWord s.machine.ip ++ ": " ++ fault.message ++ "\n")
  { s with lastCommand := "" }.enter .prompting

/-- An instruction was carried out: stop at a breakpoint, or go on with the next. -/
def pauseOrGoOn (s : Session) (remaining : Option Nat) : Session :=
  let ip := s.machine.ip
  if s.breakpoints.contains ip then
    (s.print ("breakpoint at " ++ Text.hexWord ip ++ " reached\n")).enter .prompting
  else s.enter (.running (remaining.map (· - 1)))

/-- Carry out one instruction, where `remaining` are still to be carried out with this one. -/
def stepMachine (s : Session) (remaining : Option Nat) : Session :=
  match Machine.step Host.console s.conversation with
  | .ok .continue c => { s with conversation := c }.pauseOrGoOn remaining
  | .ok (.finished _) c => { s with conversation := c }.concludeRun
  | .error fault c => { s with conversation := c }.reportFault fault

/-! ## Commands -/

/-- Print instructions from a position on. -/
def listFrom (s : Session) (pos : UInt16) (count : Nat) : Session :=
  s.print (View.instructions s.machine.image.code pos count)

/-- Set a breakpoint, or delete it. -/
def toggleBreakpoint (s : Session) (pos : UInt16) : Session :=
  if s.breakpoints.contains pos then
    { s with breakpoints := s.breakpoints.erase pos }.print
      ("deleted breakpoint at " ++ Text.hexWord pos ++ "\n")
  else
    { s with breakpoints := s.breakpoints.insert pos () }.print
      ("added breakpoint at " ++ Text.hexWord pos ++ "\n")

/-- Switch details on or off. -/
def toggleVerbose (s : Session) : Session :=
  let console := { s.console with verbose := !s.console.verbose }
  s.withConsole (console.print ("verbose: " ++ View.onOff console.verbose ++ "\n"))

/-- Start the conversation again, without breakpoints. -/
def reset (s : Session) : Session :=
  let s := (s.print "restarting conversation, deleting all breakpoints.\n").restart
  if s.phase = .prompting then { s with breakpoints := .empty } else s

/-- Carry out a command, up to the first instruction if it is a command to go on. -/
def execute (s : Session) : DebugCommand → Session
  | .help => s.print View.help
  | .info => s.print (View.info s.machine s.console.verbose s.breakpoints.keys)
  | .registers => s.print (View.registers s.machine)
  | .list start => s.listFrom (start.getD s.machine.ip) 5
  | .dumpStack => s.print (View.stack s.machine.stack)
  | .step count => s.enter (.running (some count))
  | .continue => s.enter (.running none)
  | .breakAt (some pos) => s.toggleBreakpoint pos
  | .breakAt none => s.print "usage: break <hex position>\n"
  | .toggleVerbose => s.toggleVerbose
  | .reset => s.reset
  | .exit => s.enter (.ended none)
  | .unknown text => s.print ("unknown command '" ++ text ++ "'; type \"help\"\n")

/-- Show where the machine is. -/
def prompt (s : Session) : Session :=
  ((s.print "\n").listFrom s.machine.ip 1).print ">"

/-- The command of a line: the line in small letters, or the last command for an empty line. -/
def commandText (s : Session) (line : String) : String :=
  if line.isEmpty then s.lastCommand else Text.lowerCase line

/-- Prompt for a command and carry it out.  At the end of the input the session is over. -/
def readCommand (s : Session) : Session :=
  let s := s.prompt
  let (line?, console) := s.console.readLine
  let s := s.withConsole console
  match line? with
  | none => s.enter (.ended none)
  | some line =>
    let command := s.commandText line
    { s with lastCommand := command }.execute (.ofText command)

/-! ## The work -/

/-- One piece of work. -/
def tick (s : Session) : Session :=
  match s.phase with
  | .prompting => s.readCommand
  | .running (some 0) => s.enter .prompting
  | .running remaining => s.stepMachine remaining
  | .ended _ => s

/-- The session with more lines of input. -/
def supply (s : Session) (lines : List (Option String)) : Session :=
  s.withConsole { s.console with input := s.console.input ++ lines }

/-- Whether the session is over. -/
def isOver (s : Session) : Bool :=
  match s.phase with
  | .ended _ => true
  | _ => false

end Session

end Parley
