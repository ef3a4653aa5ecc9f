import Parley.CommandLine.Request
import Parley.Debugger.Session
import Parley.ScriptedRun
set_option autoImplicit false

/-!
# Performing commands

A command reads files and leads to what it prints and writes.  How a file is read is left open: `m` is
what reading may do besides, such as use up what stands in a pipe.  Files are read when they are needed
and in this order: the settings, the image, the strings and the globals; the first that cannot be had
stops the command.  Only a debugging session goes on afterwards, between the user and the tool.
-/

namespace Parley.CommandLine

/-- What a command does to the world. -/
structure Effect where
  output : String
  /-- A file and its new content. -/
  written : Option (String × List UInt8)
  /-- What stopped the command after its output. -/
  fault : Option CommandFault

/-- What a command leads to. -/
inductive Outcome where
  | effect (e : Effect)
  /-- A debugging session at its start, whose console has no input yet. -/
  | session (s : Session)

/-- Print a text, or write it to a file. -/
def emit (text : String) : Option String → Effect
  | none => ⟨text, none, none⟩
  | some path => ⟨"", some (path, Text.encode text), none⟩

/-! ## Files -/

variable {m : Type → Type} [Monad m] (read : String → m FileState)

/-- The strings in a file: a JSON list of texts. -/
def stringsOf (path : String) (file : FileState) : Except CommandFault (List String) := do
  let text ← file.text path
  match (Json.read? text).bind (Datum.listOf? Datum.text?) with
  | some strings => .ok strings
  | none => .error (.json path)

/-- The strings in a file, none without a file. -/
def loadStrings : Option String → ExceptT CommandFault m (List String)
  | some path => do stringsOf path (← read path)
  | none => pure []

/-- The image in a file. -/
def imageOf (path : String) (slot : Option UInt16) (file : FileState) : Except CommandFault Image := do
  let bytes ← file.bytes path
  (Image.ofBytes bytes slot).mapError .load

/-- The image and the strings of a conversation. -/
def loadConversation (files : ConversationFiles) : ExceptT CommandFault m (Image × List String) := do
  let image ← imageOf files.image files.slot (← read files.image)
  let strings ← loadStrings read files.strings
  pure (image, strings)

/-- The globals in a file, none without a file. -/
def loadGlobals (slot : Option UInt16) : Option String → ExceptT CommandFault m GlobalStore
  | some path => do GlobalStore.load path (← read path) slot
  | none => pure .empty

/-- The settings in a file, the standard ones without a file. -/
def loadSettings : Option String → ExceptT CommandFault m Settings
  | some path => do Settings.ofFile path (← read path)
  | none => pure .standard

/-! ## Commands -/

/-- The effect of a run that left globals and a report, where a file may receive the globals: the
transcript, and the new content of the file, of which the saved globals of a game keep a part. -/
def runEffect (slot : Option UInt16) (store : GlobalStore) (report : RunReport) :
    Option String → m Effect
  | none => pure ⟨report.transcript, none, none⟩
  | some path => do
    let file ← if GlobalStore.isSavedGame path then read path else pure .missing
    match store.save path file slot with
    | .ok bytes => pure ⟨report.transcript, some (path, bytes), none⟩
    | .error fault => pure ⟨report.transcript, none, some fault⟩

/-- Perform a command under settings. -/
def Command.perform (settings : Settings) : Command → ExceptT CommandFault m Outcome
  | .list kind files name showsInstructions output => do
    let settings :=
      { settings with showsInstructions := settings.showsInstructions || showsInstructions }
    let (image, strings) ← loadConversation read files
    let text ← writeListing image strings settings name kind
    pure (.effect (emit text output))
  | .run files globals answers maxSteps => do
    let (image, strings) ← loadConversation read files
    let store ← loadGlobals read files.slot globals
    let limit := maxSteps.getD settings.maxSteps
    let (store, result) := runConversation image strings store answers limit
    let report ← result
    let e ← ExceptT.lift (runEffect read files.slot store report globals)
    pure (.effect e)
  | .debug files globals => do
    let (image, strings) ← loadConversation read files
    let store ← loadGlobals read files.slot globals
    pure (.session (Session.start image strings store.privates (.ofBytes [])))

/-- How the tool is used. -/
def usage : String :=
  "usage: parley [--config FILE] [-v | -q] COMMAND\n" ++
  "commands:\n" ++
  "  decompile IMAGE [--strings FILE] [--slot N] [--name NAME] [--disassembly] [-o FILE]\n" ++
  "  disassemble IMAGE [--strings FILE] [--slot N] [--name NAME] [-o FILE]\n" ++
  "  run IMAGE [--strings FILE] [--slot N] [--globals FILE] [--answers N,...] [--max-steps N]\n" ++
  "  debug IMAGE [--strings FILE] [--slot N] [--globals FILE]\n"

/-- Perform a request. -/
def Request.perform : Request → ExceptT CommandFault m Outcome
  | .help => pure (.effect ⟨usage, none, none⟩)
  | .command settings task => do
    let settings ← loadSettings read settings
    task.perform read settings

/-! ## Exit codes -/

/-- The exit code of a command that did its work. -/
def successCode : UInt8 := 0

/-- The exit code of a command that was stopped. -/
def failureCode : UInt8 := 1

/-- The exit code for arguments that make no request. -/
def usageCode : UInt8 := 2

/-- The exit code of a command that may have been stopped by a fault. -/
def exitCode (fault : Option CommandFault) : UInt8 :=
  if fault.isSome then failureCode else successCode

/-- The fault that ended a session. -/
def sessionFault (s : Session) : Option CommandFault :=
  match s.phase with
  | .ended (some fault) => some (.machine fault)
  | _ => none

end Parley.CommandLine
