import Mathlib.Data.List.DropRight
import Parley.SavedGlobals
import Parley.Proofs.Image.Reading
set_option autoImplicit false

/-!
# Reading written globals

What counts of saved globals are the words of each slot: a slot that is not there and an empty one both have
none.  Empty slots are not written, and the gaps that they leave are filled again; so globals that were written are
read back without the empty slots at their end, and with the same words in every slot.  All globals that were read can
be written.
-/

namespace Parley.SavedGlobals

open Binary

/-- The words of a slot, none if it is not there. -/
def wordsAt (globals : SavedGlobals) (slot : UInt16) : List UInt16 :=
  ((globals.get? slot).map (·.toList)).getD []

/-! ## Replacing the words of a slot -/

@[simp] theorem wordsAt_empty (slot : UInt16) : empty.wordsAt slot = [] := by
  simp [wordsAt, get?, empty]

/-- Empty slots at the end make no difference to the words. -/
theorem wordsAt_append_replicate (slots : Array (Array UInt16)) (count : Nat) (slot : UInt16) :
    wordsAt ⟨slots ++ Array.replicate count #[]⟩ slot = wordsAt ⟨slots⟩ slot := by
  unfold wordsAt get?
  rw [Array.getElem?_append]
  split
  · rfl
  · rename_i hbehind
    rw [Array.getElem?_eq_none (Nat.le_of_not_lt hbehind), Array.getElem?_replicate]
    split <;> rfl

/-- A slot that is made for another one is empty. -/
theorem wordsAt_extendTo (globals : SavedGlobals) (slot other : UInt16) :
    (globals.extendTo slot).wordsAt other = globals.wordsAt other :=
  wordsAt_append_replicate globals.slots _ other

theorem get?_set (globals : SavedGlobals) (slot other : UInt16) (values : Array UInt16) :
    (globals.set slot values).get? other =
      if other = slot then some values else (globals.extendTo slot).get? other := by
  have hthere : slot.toNat < (globals.extendTo slot).slots.size := by
    simp only [extendTo, Array.size_append, Array.size_replicate]
    omega
  unfold set modify
  rw [get?, Array.getElem?_modify]
  by_cases heq : other = slot
  · rw [if_pos (congrArg UInt16.toNat heq.symm), if_pos heq, heq, Array.getElem?_eq_getElem hthere]
    rfl
  · rw [if_neg fun hnat => heq (UInt16.toNat_inj.1 hnat.symm), if_neg heq]
    rfl

@[simp] theorem wordsAt_set_self (globals : SavedGlobals) (slot : UInt16) (values : Array UInt16) :
    (globals.set slot values).wordsAt slot = values.toList := by
  rw [wordsAt, get?_set, if_pos rfl]
  rfl

theorem wordsAt_set_of_ne (globals : SavedGlobals) {slot other : UInt16} (hne : other ≠ slot)
    (values : Array UInt16) : (globals.set slot values).wordsAt other = globals.wordsAt other := by
  rw [wordsAt, get?_set, if_neg hne]
  exact wordsAt_extendTo globals slot other

/-! ## Globals that can be written -/

/-- The slots can be numbered by words, and their words be counted by words. -/
structure Storable (globals : SavedGlobals) : Prop where
  slots : globals.slots.size ≤ UInt16.size
  words : ∀ values ∈ globals.slots, values.size < UInt16.size

theorem storable_empty : empty.Storable := ⟨Nat.zero_le _, fun _ h => by simp [empty] at h⟩

theorem Storable.set {globals : SavedGlobals} (h : globals.Storable) (slot : UInt16)
    {values : Array UInt16} (hsize : values.size < UInt16.size) : (globals.set slot values).Storable := by
  have hslot := slot.toNat_lt
  have hslots := h.slots
  refine ⟨?_, fun written hwritten => ?_⟩
  · simp only [SavedGlobals.set, modify, extendTo, Array.size_modify, Array.size_append, Array.size_replicate]
    change _ ≤ 2 ^ 16 at hslots ⊢
    omega
  · obtain ⟨index, hindex, rfl⟩ := Array.mem_iff_getElem.1 hwritten
    simp only [SavedGlobals.set, modify, Array.getElem_modify]
    split
    · exact hsize
    · have hlt : index < (globals.extendTo slot).slots.size := by
        simpa [SavedGlobals.set, modify] using hindex
      rcases Array.mem_append.1 (Array.getElem_mem hlt) with hmem | hmem
      · exact h.words _ hmem
      · rw [Array.eq_of_mem_replicate hmem]
        exact Nat.zero_lt_succ _

/-- A record puts at most as many words into a slot as a word counts. -/
theorem yields_readRecord {layout : Layout} {globals : SavedGlobals} (h : globals.Storable) :
    Yields (readRecord layout globals) Storable := by
  refine yields_bind fun slot => yields_bind fun size => ?_
  have hsize : size.toNat < UInt16.size := size.toNat_lt
  cases layout with
  | initial =>
    exact yields_pure (h.set slot (by rwa [Array.size_replicate]))
  | saved =>
    refine (yields_words size.toNat).bind fun values hvalues => yields_pure (h.set slot ?_)
    rwa [hvalues]

theorem storable_readRecords {layout : Layout} {globals result : SavedGlobals} (h : globals.Storable)
    {fuel : Nat} {cursor cursor' : Cursor}
    (hread : readRecords layout globals fuel cursor = .ok (result, cursor')) : result.Storable := by
  induction fuel generalizing globals cursor with
  | zero =>
    cases hread
    exact h
  | succ fuel ih =>
    rw [readRecords] at hread
    split at hread
    · cases hread
      exact h
    · split at hread
      · rename_i hrecord
        exact ih (yields_readRecord h _ _ _ hrecord) hread
      · cases hread

/-- All globals that were read can be written. -/
theorem storable_ofBytes {bytes : List UInt8} {layout : Layout} {globals : SavedGlobals}
    (h : ofBytes bytes layout = .ok globals) : globals.Storable := by
  unfold ofBytes at h
  cases hread : readRecords layout empty bytes.length (.start bytes) with
  | error fault =>
    rw [hread] at h
    cases h
  | ok result =>
    rw [hread] at h
    cases h
    exact storable_readRecords storable_empty hread

/-! ## Reading what was written -/

/-- The globals with an entry of a list put into its slot, unless it is empty. -/
def putEntry (globals : SavedGlobals) (entry : Array UInt16 × Nat) : SavedGlobals :=
  if entry.1.isEmpty then globals else globals.set (UInt16.ofNat entry.2) entry.1

theorem reads_record (globals : SavedGlobals) {entry : Array UInt16 × Nat}
    (hempty : entry.1.isEmpty = false) (hsize : entry.1.size < UInt16.size) :
    Reads (readRecord .saved globals) (recordBytes entry) (globals.putEntry entry) := by
  have hcount : (UInt16.ofNat entry.1.size).toNat = entry.1.size := UInt16.toNat_ofNat_of_lt' hsize
  have hwords := reads_words entry.1
  rw [← hcount] at hwords
  rw [recordBytes, putEntry, hempty, if_neg Bool.false_ne_true, if_neg Bool.false_ne_true, wordsBytes_cons,
    wordsBytes_cons, ← List.append_nil (wordsBytes entry.1.toList)]
  exact (reads_word _).bind ((reads_word _).bind (hwords.bind (reads_pure _)))

theorem recordBytes_ne_nil {entry : Array UInt16 × Nat} (hempty : entry.1.isEmpty = false) :
    recordBytes entry ≠ [] := by
  rw [recordBytes, hempty, if_neg Bool.false_ne_true, wordsBytes_cons]
  exact List.cons_ne_nil _ _

/-- The records of entries, to the end of the bytes, put each of them into its slot. -/
theorem readRecords_flatMap (globals : SavedGlobals) (entries : List (Array UInt16 × Nat))
    (hsizes : ∀ entry ∈ entries, entry.1.size < UInt16.size) {fuel : Nat}
    (hfuel : (entries.flatMap recordBytes).length ≤ fuel) (offset : Nat) :
    ∃ cursor, readRecords .saved globals fuel ⟨entries.flatMap recordBytes, offset⟩ =
      .ok (entries.foldl putEntry globals, cursor) := by
  induction entries generalizing globals fuel offset with
  | nil => cases fuel <;> exact ⟨_, rfl⟩
  | cons entry entries ih =>
    have hrest : ∀ entry ∈ entries, entry.1.size < UInt16.size := fun x hx =>
      hsizes x (List.mem_cons_of_mem _ hx)
    rw [List.flatMap_cons, List.length_append] at hfuel
    rw [List.flatMap_cons, List.foldl_cons]
    cases hempty : entry.1.isEmpty with
    | true =>
      have hnone : recordBytes entry = [] := by rw [recordBytes, hempty, if_pos rfl]
      have hsame : globals.putEntry entry = globals := by rw [putEntry, hempty, if_pos rfl]
      rw [hnone, hsame, List.nil_append]
      exact ih globals hrest (by omega) offset
    | false =>
      have hsome := List.length_pos_iff.2 (recordBytes_ne_nil hempty)
      have hmore : (recordBytes entry ++ entries.flatMap recordBytes).isEmpty = false := by
        rw [List.isEmpty_eq_false_iff]
        exact List.append_ne_nil_of_left_ne_nil (recordBytes_ne_nil hempty) _
      obtain ⟨fuel, rfl⟩ : ∃ less, fuel = less + 1 := ⟨fuel - 1, by omega⟩
      rw [readRecords, hmore, if_neg Bool.false_ne_true,
        reads_record globals hempty (hsizes entry List.mem_cons_self) _ offset]
      exact ih _ hrest (by omega) _

/-! ## Empty slots at the end -/

/-- The globals without the empty slots behind the last one that has words. -/
def trimmed (globals : SavedGlobals) : SavedGlobals :=
  ⟨(globals.slots.toList.rdropWhile Array.isEmpty).toArray⟩

theorem trimmed_append_replicate (globals : SavedGlobals) :
    ∃ count, globals.trimmed.slots ++ Array.replicate count #[] = globals.slots := by
  have hempty : ∀ values ∈ globals.slots.toList.rtakeWhile Array.isEmpty, values = #[] :=
    fun values hmem => Array.isEmpty_iff.1 (List.mem_rtakeWhile_imp hmem)
  have hsplit := List.rdropWhile_append_rtakeWhile (p := Array.isEmpty) (l := globals.slots.toList)
  rw [List.eq_replicate_of_mem hempty] at hsplit
  refine ⟨(globals.slots.toList.rtakeWhile Array.isEmpty).length, Array.toList_inj.1 ?_⟩
  rw [Array.toList_append, Array.toList_replicate]
  exact hsplit

theorem wordsAt_trimmed (globals : SavedGlobals) (slot : UInt16) :
    globals.trimmed.wordsAt slot = globals.wordsAt slot := by
  obtain ⟨count, hslots⟩ := globals.trimmed_append_replicate
  have hwords := wordsAt_append_replicate globals.trimmed.slots count slot
  rw [hslots] at hwords
  exact hwords.symm

theorem trimmed_concat_of_isEmpty (entries : List (Array UInt16)) {values : Array UInt16}
    (h : values.isEmpty = true) : trimmed ⟨(entries ++ [values]).toArray⟩ = trimmed ⟨entries.toArray⟩ := by
  simp only [trimmed, List.rdropWhile_concat_pos _ _ _ h]

theorem trimmed_concat_of_not_isEmpty (entries : List (Array UInt16)) {values : Array UInt16}
    (h : values.isEmpty = false) :
    trimmed ⟨(entries ++ [values]).toArray⟩ = ⟨(entries ++ [values]).toArray⟩ := by
  have hwords : ¬ values.isEmpty = true := Bool.eq_false_iff.1 h
  simp only [trimmed, List.rdropWhile_concat_neg _ _ _ hwords]

/-- Words for a slot behind the last one are put behind empty slots. -/
theorem slots_set_behind (globals : SavedGlobals) (slot : UInt16) (h : globals.slots.size ≤ slot.toNat)
    (values : Array UInt16) :
    (globals.set slot values).slots =
      (globals.slots ++ Array.replicate (slot.toNat - globals.slots.size) #[]).push values := by
  have hcount : slot.toNat + 1 - globals.slots.size = slot.toNat - globals.slots.size + 1 := by omega
  have hsize : (globals.slots ++ Array.replicate (slot.toNat - globals.slots.size) #[]).size = slot.toNat := by
    rw [Array.size_append, Array.size_replicate]
    omega
  simp only [set, modify, extendTo]
  rw [hcount, Array.replicate_succ, Array.append_push]
  refine Array.ext_getElem? fun index => ?_
  rw [Array.getElem?_modify, Array.getElem?_push, Array.getElem?_push, hsize]
  by_cases heq : index = slot.toNat
  · simp [heq]
  · rw [if_neg (Ne.symm heq), if_neg heq, if_neg heq]

/-- Entries put into the slots one after the other make up their slots again, up to the last one that has words. -/
theorem foldl_putEntry (entries : List (Array UInt16)) (hbound : entries.length ≤ UInt16.size) :
    entries.zipIdx.foldl putEntry empty = trimmed ⟨entries.toArray⟩ := by
  induction entries using List.reverseRecOn with
  | nil => rfl
  | append_singleton entries values ih =>
    rw [List.length_append, List.length_singleton] at hbound
    have hslot : (UInt16.ofNat entries.length).toNat = entries.length := UInt16.toNat_ofNat_of_lt' (by omega)
    rw [List.zipIdx_append, List.foldl_append, ih (by omega), Nat.zero_add, List.zipIdx_singleton, List.foldl_cons,
      List.foldl_nil]
    cases hempty : values.isEmpty with
    | true =>
      rw [putEntry, if_pos hempty, trimmed_concat_of_isEmpty entries hempty]
    | false =>
      obtain ⟨count, hslots⟩ := trimmed_append_replicate ⟨entries.toArray⟩
      have hsize : (trimmed ⟨entries.toArray⟩).slots.size + count = entries.length := by
        have hsize := congrArg Array.size hslots
        rwa [Array.size_append, Array.size_replicate, List.size_toArray] at hsize
      have hbehind := slots_set_behind (trimmed ⟨entries.toArray⟩) (UInt16.ofNat entries.length) (by omega) values
      have hgap : (UInt16.ofNat entries.length).toNat - (trimmed ⟨entries.toArray⟩).slots.size = count := by omega
      rw [hgap, hslots, List.push_toArray] at hbehind
      rw [putEntry, if_neg (Bool.eq_false_iff.1 hempty), trimmed_concat_of_not_isEmpty entries hempty]
      exact congrArg SavedGlobals.mk hbehind

/-- Globals that can be written are read back without the empty slots at their end. -/
theorem ofBytes_toBytes_eq_trimmed {globals : SavedGlobals} (h : globals.Storable) :
    ofBytes globals.toBytes .saved = .ok globals.trimmed := by
  have hsizes : ∀ entry ∈ globals.slots.toList.zipIdx, entry.1.size < UInt16.size := fun entry hentry =>
    h.words entry.1 (Array.mem_toList_iff.1 (List.fst_mem_of_mem_zipIdx hentry))
  obtain ⟨cursor, hread⟩ := readRecords_flatMap empty _ hsizes (Nat.le_refl _) 0
  have hbytes : ofBytes globals.toBytes .saved =
      .ok (globals.slots.toList.zipIdx.foldl putEntry empty) :=
    congrArg (Except.map Prod.fst) hread
  rw [hbytes, foldl_putEntry]
  exact h.slots

/-- Globals that can be written are read back with the same words in every slot. -/
theorem ofBytes_toBytes {globals : SavedGlobals} (h : globals.Storable) :
    ∃ result, ofBytes globals.toBytes .saved = .ok result ∧
      ∀ slot, result.wordsAt slot = globals.wordsAt slot :=
  ⟨globals.trimmed, ofBytes_toBytes_eq_trimmed h, wordsAt_trimmed globals⟩

end Parley.SavedGlobals
