import Parley.Proofs.Globals.Record
set_option autoImplicit false

/-!
# Saved globals survive writing and reading

However saved globals have come about, writing and reading them takes the empty slots at their end away and
changes nothing else.  Bytes that are saved globals are records one behind the other, of which the last one for a slot
counts; written again, there is one record for each slot that has words.
-/

namespace Parley.SavedGlobals

open Binary

/-! ## Globals that were edited -/

/-- What becomes of saved globals that are read, set and changed in any way. -/
inductive Edited : SavedGlobals → Prop
  | empty : Edited empty
  | read {bytes : List UInt8} {layout : Layout} {globals : SavedGlobals}
      (accepted : ofBytes bytes layout = .ok globals) : Edited globals
  | set {globals : SavedGlobals} (before : Edited globals) (slot : UInt16) (values : Array UInt16) :
      Edited (globals.set slot values)
  | modify {globals : SavedGlobals} (before : Edited globals) (slot : UInt16)
      (f : Array UInt16 → Array UInt16) : Edited (globals.modify slot f)

theorem size_modify (globals : SavedGlobals) (slot : UInt16) (f : Array UInt16 → Array UInt16) :
    (globals.modify slot f).slots.size = max globals.slots.size (slot.toNat + 1) := by
  simp only [modify, extendTo, Array.size_modify, Array.size_append, Array.size_replicate]
  omega

theorem size_modify_le {globals : SavedGlobals} (h : globals.slots.size ≤ UInt16.size) (slot : UInt16)
    (f : Array UInt16 → Array UInt16) : (globals.modify slot f).slots.size ≤ UInt16.size := by
  rw [size_modify]
  exact Nat.max_le.2 ⟨h, slot.toNat_lt⟩

/-- Edited globals have no more slots than words can number. -/
theorem Edited.slots_le {globals : SavedGlobals} (h : Edited globals) : globals.slots.size ≤ UInt16.size := by
  induction h with
  | empty => exact Nat.zero_le _
  | read accepted => exact (storable_ofBytes accepted).slots
  | set before slot values ih => exact size_modify_le ih slot _
  | modify before slot f ih => exact size_modify_le ih slot f

theorem Edited.storable {globals : SavedGlobals} (h : Edited globals)
    (hwords : ∀ values ∈ globals.slots, values.size ≤ 65535) : globals.Storable :=
  ⟨h.slots_le, fun values hvalues => Nat.lt_succ_of_le (hwords values hvalues)⟩

/-! ## Slots that have words -/

theorem get?_eq_some_iff {globals : SavedGlobals} {slot : UInt16} {values : Array UInt16} (hvalues : values ≠ #[]) :
    globals.get? slot = some values ↔ globals.wordsAt slot = values.toList := by
  have hlist : ([] : List UInt16) ≠ values.toList := fun h => hvalues (Array.toList_eq_nil_iff.1 h.symm)
  unfold wordsAt
  cases globals.get? slot with
  | none => simp [hlist]
  | some found => simp [Array.toList_inj]

theorem get?_trimmed_iff (globals : SavedGlobals) {slot : UInt16} {values : Array UInt16} (hvalues : values ≠ #[]) :
    globals.trimmed.get? slot = some values ↔ globals.get? slot = some values := by
  rw [get?_eq_some_iff hvalues, get?_eq_some_iff hvalues, wordsAt_trimmed]

/-! ## Records -/

/-- A record of saved globals: the words of a slot, which can be counted by a word. -/
structure Record where
  slot : UInt16
  values : Array UInt16
  counted : values.size < UInt16.size

/-- The bytes of a record. -/
def Record.bytes (record : Record) : List UInt8 :=
  wordsBytes (record.slot :: UInt16.ofNat record.values.size :: record.values.toList)

/-- The globals with the slot of a record replaced. -/
def put (globals : SavedGlobals) (record : Record) : SavedGlobals := globals.set record.slot record.values

/-- The words in the last of the records for a slot, none if there is no such record. -/
def lastWords (records : List Record) (slot : UInt16) : List UInt16 :=
  (((records.filter (·.slot = slot)).getLast?).map (·.values.toList)).getD []

theorem record_of_readRecord {globals globals' : SavedGlobals} {cursor cursor' : Cursor}
    (h : readRecord .saved globals cursor = .ok (globals', cursor')) :
    ∃ record : Record, globals' = globals.put record ∧ cursor.rest = record.bytes ++ cursor'.rest := by
  obtain ⟨slot, cursor₁, hslot, h⟩ := reader_bind_eq_ok.1 h
  obtain ⟨size, cursor₂, hsize, h⟩ := reader_bind_eq_ok.1 h
  obtain ⟨values, cursor₃, hvalues, h⟩ := reader_bind_eq_ok.1 h
  cases h
  obtain ⟨hcount, hrest⟩ := rest_of_readWords hvalues
  have hword : UInt16.ofNat values.size = size := by rw [hcount, UInt16.ofNat_toNat]
  refine ⟨⟨slot, values, hcount ▸ size.toNat_lt⟩, rfl, ?_⟩
  rw [rest_of_readWord hslot, rest_of_readWord hsize, hrest, Record.bytes, hword, wordsBytes_cons, wordsBytes_cons,
    List.append_assoc, List.append_assoc]

theorem records_of_readRecords {globals result : SavedGlobals} {fuel : Nat} {cursor cursor' : Cursor}
    (hfuel : cursor.rest.length ≤ fuel) (h : readRecords .saved globals fuel cursor = .ok (result, cursor')) :
    ∃ records : List Record, cursor.rest = records.flatMap Record.bytes ∧ result = records.foldl put globals := by
  induction fuel generalizing globals cursor with
  | zero =>
    cases h
    exact ⟨[], List.length_eq_zero_iff.1 (Nat.le_zero.1 hfuel), rfl⟩
  | succ fuel ih =>
    rw [readRecords] at h
    split at h
    · rename_i hempty
      cases h
      exact ⟨[], List.isEmpty_iff.1 hempty, rfl⟩
    · split at h
      · rename_i globals₁ cursor₁ hrecord
        obtain ⟨record, rfl, hrest⟩ := record_of_readRecord hrecord
        have hshorter : cursor₁.rest.length ≤ fuel := by
          have hlength := congrArg List.length hrest
          rw [List.length_append, Record.bytes, wordsBytes_cons, List.length_append] at hlength
          have htwo : (wordBytes record.slot).length = 2 := rfl
          omega
        obtain ⟨records, hrecords, rfl⟩ := ih hshorter h
        refine ⟨record :: records, ?_, rfl⟩
        rw [hrest, hrecords, List.flatMap_cons]
      · cases h

/-- Saved globals are records, put into their slots one after the other. -/
theorem records_of_ofBytes {bytes : List UInt8} {globals : SavedGlobals} (h : ofBytes bytes .saved = .ok globals) :
    ∃ records : List Record, bytes = records.flatMap Record.bytes ∧ globals = records.foldl put empty := by
  unfold ofBytes at h
  cases hread : readRecords .saved empty bytes.length (.start bytes) with
  | error fault =>
    rw [hread] at h
    cases h
  | ok result =>
    rw [hread] at h
    cases h
    have hfuel : (Cursor.start bytes).rest.length ≤ bytes.length := Nat.le_refl _
    exact records_of_readRecords hfuel hread

/-- The last record for a slot wins. -/
theorem wordsAt_foldl_put (records : List Record) (slot : UInt16) :
    (records.foldl put empty).wordsAt slot = lastWords records slot := by
  induction records using List.reverseRecOn with
  | nil => exact wordsAt_empty slot
  | append_singleton records record ih =>
    rw [List.foldl_append, List.foldl_cons, List.foldl_nil, put, lastWords, List.filter_append]
    by_cases heq : record.slot = slot
    · subst heq
      simp [wordsAt_set_self]
    · rw [wordsAt_set_of_ne _ (Ne.symm heq), ih]
      simp [heq, lastWords]

/-! ## Writing and reading -/

/-- Edited globals, each of whose slots has at most 65535 words, are read back from their bytes without the empty
slots at their end, so each slot that has words has the same.  And bytes that are read as saved globals are records,
of which the last one for a slot wins; the globals are written and read again with the same words in each slot that
has any. -/
theorem saved_globals_endure :
    (∀ globals, Edited globals → (∀ values ∈ globals.slots, values.size ≤ 65535) →
      ofBytes globals.toBytes .saved = .ok globals.trimmed ∧
      ∀ slot values, values ≠ #[] →
        (globals.trimmed.get? slot = some values ↔ globals.get? slot = some values)) ∧
    ∀ bytes globals, ofBytes bytes .saved = .ok globals →
      ∃ (again : SavedGlobals) (records : List Record), ofBytes globals.toBytes .saved = .ok again ∧
        bytes = records.flatMap Record.bytes ∧
        ∀ slot values, values ≠ #[] →
          (again.get? slot = some values ↔ globals.get? slot = some values) ∧
          (globals.get? slot = some values ↔ lastWords records slot = values.toList) := by
  refine ⟨fun globals hedited hwords => ?_, fun bytes globals hread => ?_⟩
  · exact ⟨ofBytes_toBytes_eq_trimmed (hedited.storable hwords),
      fun slot values hvalues => get?_trimmed_iff globals hvalues⟩
  · obtain ⟨records, hbytes, hglobals⟩ := records_of_ofBytes hread
    refine ⟨globals.trimmed, records, ofBytes_toBytes_eq_trimmed (storable_ofBytes hread), hbytes,
      fun slot values hvalues => ⟨get?_trimmed_iff globals hvalues, ?_⟩⟩
    rw [get?_eq_some_iff hvalues, hglobals, wordsAt_foldl_put]

/-- Saved globals with two records for one slot, and with records of no words, one of them at the end. -/
def patchwork : List UInt8 := wordsBytes [4, 1, 3, 1, 2, 9, 9, 2, 0, 4, 2, 5, 6, 7, 0]

theorem saved_globals_endure_patchwork :
    ∃ globals, ofBytes patchwork .saved = .ok globals ∧
      ofBytes ((globals.set 1 #[8]).modify 9 (·.pop)).toBytes .saved = .ok ⟨#[#[], #[8], #[], #[], #[5, 6]]⟩ ∧
      ∃ (again : SavedGlobals) (records : List Record), ofBytes globals.toBytes .saved = .ok again ∧
        patchwork = records.flatMap Record.bytes ∧ again.get? 4 = some #[5, 6] ∧ lastWords records 4 = [5, 6] := by
  have hread : ofBytes patchwork .saved = .ok ⟨#[#[], #[9, 9], #[], #[], #[5, 6], #[], #[], #[]]⟩ := rfl
  have hedited := ((Edited.read hread).set 1 #[8]).modify 9 (·.pop)
  have hfirst := (saved_globals_endure.1 _ hedited (by decide)).1
  obtain ⟨again, records, hagain, hrecords, hslots⟩ := saved_globals_endure.2 _ _ hread
  have hfour := hslots 4 #[5, 6] (by decide)
  exact ⟨_, hread, hfirst, again, records, hagain, hrecords, hfour.1.2 rfl, hfour.2.1 rfl⟩

end Parley.SavedGlobals
