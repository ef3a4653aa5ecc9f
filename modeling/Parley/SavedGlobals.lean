import Parley.Image.Binary
set_option autoImplicit false

/-!
# Saved globals

The private globals of all conversations of a saved game, by conversation slot.  The binary form is a
sequence of records: slot, size and as many values.  A new game starts from a form without values, in
which every global is zero.
-/

namespace Parley

/-- The private globals of each conversation, where a slot without globals may be left out at the end. -/
structure SavedGlobals where
  slots : Array (Array UInt16)
  deriving DecidableEq

namespace SavedGlobals

open Binary

/-- No globals at all. -/
def empty : SavedGlobals := ⟨#[]⟩

/-- The number of slots. -/
def slotCount (globals : SavedGlobals) : Nat := globals.slots.size

/-- The globals of a slot, none behind the last one. -/
def get? (globals : SavedGlobals) (slot : UInt16) : Option (Array UInt16) :=
  globals.slots[slot.toNat]?

/-- The globals with empty slots up to and including `slot`, where there are none yet. -/
def extendTo (globals : SavedGlobals) (slot : UInt16) : SavedGlobals :=
  ⟨globals.slots ++ Array.replicate (slot.toNat + 1 - globals.slots.size) #[]⟩

/-- Change the globals of a slot. -/
def modify (globals : SavedGlobals) (slot : UInt16) (f : Array UInt16 → Array UInt16) :
    SavedGlobals :=
  ⟨(globals.extendTo slot).slots.modify slot.toNat f⟩

/-- Replace the globals of a slot. -/
def set (globals : SavedGlobals) (slot : UInt16) (values : Array UInt16) : SavedGlobals :=
  globals.modify slot fun _ => values

/-- Which of the two binary forms. -/
inductive Layout where
  /-- Sizes only, for a new game. -/
  | initial
  /-- Sizes and values. -/
  | saved
  deriving DecidableEq

/-- Read one record into the globals. -/
def readRecord (layout : Layout) (globals : SavedGlobals) : Reader SavedGlobals := do
  let slot ← readWord
  let size ← readWord
  match layout with
  | .initial => pure (globals.set slot (Array.replicate size.toNat 0))
  | .saved => do
    let values ← readWords size.toNat
    pure (globals.set slot values)

/-- Read records up to the end of the bytes, at most `fuel` of them. -/
def readRecords (layout : Layout) (globals : SavedGlobals) : Nat → Reader SavedGlobals
  | 0, cursor => .ok (globals, cursor)
  | fuel + 1, cursor =>
    if cursor.rest.isEmpty then .ok (globals, cursor)
    else
      match readRecord layout globals cursor with
      | .ok (globals, cursor) => readRecords layout globals fuel cursor
      | .error fault => .error fault

/-- The globals that bytes hold.  Every record takes four bytes at least, so there are no more records
than bytes. -/
def ofBytes (bytes : List UInt8) (layout : Layout) : Except LoadFault SavedGlobals :=
  (readRecords layout empty bytes.length (.start bytes)).map (·.1)

/-- The record of a slot; a slot without globals has none. -/
def recordBytes (entry : Array UInt16 × Nat) : List UInt8 :=
  if entry.1.isEmpty then []
  else wordsBytes (UInt16.ofNat entry.2 :: UInt16.ofNat entry.1.size :: entry.1.toList)

/-- The bytes of the globals, with their values. -/
def toBytes (globals : SavedGlobals) : List UInt8 :=
  globals.slots.toList.zipIdx.flatMap recordBytes

end SavedGlobals

end Parley
