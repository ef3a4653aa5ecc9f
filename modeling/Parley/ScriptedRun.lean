import Parley.CommandFault
import Parley.GlobalStore
import Parley.Recording
set_option autoImplicit false

/-!
# Scripted runs

A conversation is carried out with its menu answers prepared beforehand.  It starts from the globals of
the run before and leaves its own to the next one.
-/

namespace Parley

/-- What a run produced. -/
structure RunReport where
  outcome : RunOutcome
  events : List HostEvent

/-- One line for each event. -/
def RunReport.transcript (report : RunReport) : String :=
  String.join (report.events.map fun event => event.text ++ "\n")

namespace GlobalStore

/-- The globals with zeros behind the private ones, up to the number that the image reserves. -/
def reserve (store : GlobalStore) (image : Image) : GlobalStore :=
  let missing := image.reservedGlobals.toNat - store.privates.length
  { store with privates := store.privates ++ List.replicate missing 0 }

/-- The globals after an event: a write to an imported global changes its value. -/
def observe (store : GlobalStore) : HostEvent → GlobalStore
  | .writeGlobal _ (some name) value =>
    { store with imported := store.imported.insert name value }
  | _ => store

end GlobalStore

/-- Start the conversation with private globals and carry it out up to a number of steps. -/
def startAndRun (privates : List UInt16) (maxSteps : Nat) : Exec Recorder RunOutcome := do
  Machine.init Host.recording privates
  Machine.run Host.recording maxSteps

/-- Run a conversation.  The result are the globals after the run and its report; if the run faults, the
globals stay, but for the zeros up to the number of reserved ones. -/
def runConversation (image : Image) (strings : List String) (store : GlobalStore)
    (answers : List UInt16) (maxSteps : Nat) : GlobalStore × Except CommandFault RunReport :=
  let store := store.reserve image
  let recorder := Recorder.fresh answers .empty store.imported true
  match startAndRun store.privates maxSteps ⟨Machine.ofImage image strings, recorder⟩ with
  | .error fault _ => (store, .error (.machine fault))
  | .ok outcome c =>
    let events := c.host.events.toList
    let saved := { store with privates := c.machine.savedGlobals store.privates }
    (events.foldl GlobalStore.observe saved, .ok ⟨outcome, events⟩)

end Parley
