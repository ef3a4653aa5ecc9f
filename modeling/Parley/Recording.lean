import Parley.Machine.Step
set_option autoImplicit false

/-!
# Recorded conversations

A host with its answers prepared beforehand: menu choices in order, fixed results of imported
functions, and values of imported globals by name.  It writes down everything that the conversation
does to the world as a list of events.
-/

namespace Parley

/-- Something that a conversation did to the world. -/
inductive HostEvent where
  /-- It spoke a line. -/
  | say (id : UInt16) (text : String)
  /-- It offered answers, of which one was chosen. -/
  | menu (name : String) (answers : List UInt16) (chosen : UInt16)
  /-- It called an imported function. -/
  | intrinsic (name : String) (args : List UInt16) (result : UInt16)
  /-- It read a global slot. -/
  | readGlobal (slot : UInt16) (name : Option String) (value : UInt16)
  /-- It wrote a global slot. -/
  | writeGlobal (slot : UInt16) (name : Option String) (value : UInt16)
  deriving DecidableEq

/-- How a global slot is called, by its name or by its number. -/
def globalLabel (slot : UInt16) (name : Option String) : String :=
  name.getD ("global_" ++ Text.decimal slot)

/-- The line of a transcript for an event. -/
def HostEvent.text : HostEvent → String
  | .say _ text => "say: " ++ text
  | .menu name answers chosen =>
    name ++ ": [" ++ String.intercalate ", " (answers.map Text.hexWordMarked) ++ "] -> " ++
      Text.decimal chosen
  | .intrinsic name args result =>
    "call " ++ name ++ "(" ++ String.intercalate ", " (args.map Text.decimal) ++ ") -> " ++
      Text.decimal result
  | .readGlobal slot name value => "read " ++ globalLabel slot name ++ " = " ++ Text.decimal value
  | .writeGlobal slot name value => "write " ++ globalLabel slot name ++ " = " ++ Text.decimal value

/-- The state of a recording host. -/
structure Recorder where
  /-- The events so far. -/
  events : Array HostEvent
  /-- The menu choices still to be made.  Behind the last one, the first answer is chosen. -/
  answers : List UInt16
  /-- The results of imported functions by name; all others give zero. -/
  results : SortedMap String UInt16
  /-- The values of imported globals by name; all others keep theirs. -/
  globals : SortedMap String UInt16
  /-- Whether reads and writes of globals are events. -/
  recordsGlobals : Bool

namespace Recorder

/-- A recorder before the conversation starts. -/
def fresh (answers : List UInt16) (results globals : SortedMap String UInt16)
    (recordsGlobals : Bool) : Recorder :=
  ⟨#[], answers, results, globals, recordsGlobals⟩

/-- Write an event down. -/
def note (recorder : Recorder) (event : HostEvent) : Recorder :=
  { recorder with events := recorder.events.push event }

/-- Write the access to a global down, if such events are wanted. -/
def noteGlobal (recorder : Recorder) (event : HostEvent) : Recorder :=
  if recorder.recordsGlobals then recorder.note event else recorder

/-- Carry out an imported function. -/
def invoke (call : IntrinsicCall) (recorder : Recorder) : IntrinsicReply Recorder :=
  match MenuKind.ofName? call.name with
  | some kind =>
    let chosen := recorder.answers.headD 1
    let rest := { recorder with answers := recorder.answers.tail }
    ⟨chosen, [], rest.note (.menu call.name (call.offered kind) chosen)⟩
  | none =>
    let result := (recorder.results.get? call.name).getD 0
    ⟨result, [], recorder.note (.intrinsic call.name call.argValues result)⟩

/-- Give the value of a global. -/
def readGlobal (access : GlobalAccess) (recorder : Recorder) : UInt16 × Recorder :=
  let value := (access.name.bind recorder.globals.get?).getD access.value
  (value, recorder.noteGlobal (.readGlobal access.slot access.name value))

/-- Take note of a global's new value. -/
def writeGlobal (access : GlobalAccess) (recorder : Recorder) : Recorder :=
  let updated := match access.name with
    | some name => { recorder with globals := recorder.globals.insert name access.value }
    | none => recorder
  updated.noteGlobal (.writeGlobal access.slot access.name access.value)

/-- The lines spoken so far. -/
def said (recorder : Recorder) : List String :=
  recorder.events.toList.filterMap fun
    | .say _ text => some text
    | _ => none

end Recorder

/-- The host that records. -/
def Host.recording : Host Recorder where
  say id text recorder := recorder.note (.say id text)
  invoke := Recorder.invoke
  readGlobal := Recorder.readGlobal
  writeGlobal := Recorder.writeGlobal

end Parley
