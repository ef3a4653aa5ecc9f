import Parley.CommandFault
import Parley.Format.Json
import Parley.SavedGlobals
import Parley.Text.FileName
set_option autoImplicit false

/-!
# Globals between runs

The globals that one run leaves to the next: the private ones of the conversation by slot, and the
imported ones by name.  They are kept in a JSON file, or in the saved globals of a game, which hold the
private globals of all conversations and are changed in the slot of the conversation only.
-/

namespace Parley

/-- The globals between runs. -/
structure GlobalStore where
  /-- The private globals of the conversation. -/
  privates : List UInt16
  /-- The imported globals by name. -/
  imported : SortedMap String UInt16
  deriving DecidableEq

namespace GlobalStore

/-- No globals. -/
def empty : GlobalStore := ⟨[], .empty⟩

/-- Whether a path names the saved globals of a game. -/
def isSavedGame (path : String) : Bool := Text.hasExtensionAnyCase "dat" path

/-- The slot of the conversation, without which saved globals are of no use. -/
def neededSlot (slot : Option UInt16) : Except CommandFault UInt16 :=
  match slot with
  | some slot => .ok slot
  | none => .error (.configuration "a .dat globals file needs --slot")

/-- The saved globals of a game in its bytes. -/
def savedGame (bytes : List UInt8) : Except CommandFault SavedGlobals :=
  (SavedGlobals.ofBytes bytes .saved).mapError .load

/-! ## Loading -/

/-- The private globals of a slot, none if the slot is not there. -/
def ofSavedGame (saved : SavedGlobals) (slot : UInt16) : GlobalStore :=
  ⟨((saved.get? slot).map (·.toList)).getD [], .empty⟩

/-- The globals in a JSON value. -/
def ofDatum? (d : Datum) : Option GlobalStore := do
  let fields ← d.record? ["private", "imported"] .ignored
  let privates ← Datum.defaulted? (Datum.listOf? Datum.word?) [] fields "private"
  let imported ← Datum.defaulted? (Datum.tableOf? Datum.word?) .empty fields "imported"
  pure ⟨privates, imported⟩

/-- The globals in a file, none if it is missing. -/
def load (path : String) (file : FileState) (slot : Option UInt16) :
    Except CommandFault GlobalStore :=
  match file with
  | .missing => .ok empty
  | file =>
    if isSavedGame path then do
      let saved ← savedGame (← file.bytes path)
      let slot ← neededSlot slot
      pure (ofSavedGame saved slot)
    else do
      let text ← file.text path
      match (Json.read? text).bind ofDatum? with
      | some store => .ok store
      | none => .error (.json path)

/-! ## Saving -/

/-- The globals as JSON. -/
def toJson (store : GlobalStore) : String :=
  let imported := store.imported.entries.map fun (name, value) => (name, Text.decimal value)
  Json.tableText 0 [
    ("private", Json.listText 1 (store.privates.map Text.decimal)),
    ("imported", Json.tableText 1 imported)]

/-- The saved globals in a file, none if it cannot be read. -/
def existingGame : FileState → Except CommandFault SavedGlobals
  | .content bytes => savedGame bytes
  | .missing | .unreadable => .ok .empty

/-- The bytes of the file after saving, for its state before. -/
def save (store : GlobalStore) (path : String) (file : FileState) (slot : Option UInt16) :
    Except CommandFault (List UInt8) :=
  if isSavedGame path then do
    let saved ← existingGame file
    let slot ← neededSlot slot
    pure (saved.set slot store.privates.toArray).toBytes
  else .ok (Text.encode store.toJson)

end GlobalStore

end Parley
