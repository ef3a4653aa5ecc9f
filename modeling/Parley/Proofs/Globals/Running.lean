import Parley.Proofs.Globals.Start
set_option autoImplicit false

/-!
# The private globals after a run

A run is to leave in each private global what the script stored there last, or else what the global held at
the start.  It does so for the globals that the image reserves slots for.  The slots behind these belong to
the working stack: a file with more globals than the image reserves has the others loaded there too, and saved
from there, with whatever the script has put on its stack in between.
-/

namespace Parley

open Fallible Machine

/-- The conversation of a run before it is started. -/
def beforeRun (image : Image) (strings : List String) (store : GlobalStore) (answers : List UInt16) :
    Conversation Recorder :=
  ⟨Machine.ofImage image strings, Recorder.fresh answers .empty store.imported true⟩

/-- The conversations in which a run carries out its steps. -/
def runSteps (image : Image) (strings : List String) (store : GlobalStore) (answers : List UInt16)
    (maxSteps : Nat) : List (Conversation Recorder) :=
  match Machine.init Host.recording (store.reserve image).privates
      (beforeRun image strings store answers) with
  | .ok _ begin => Machine.visited Host.recording maxSteps begin
  | .error _ _ => []

/-- The value of a slot at the start of a run: for an imported global the one that the host has for its
name, and otherwise the private global before the run, zero behind the last of them. -/
def startValue (image : Image) (store : GlobalStore) (slot : UInt16) : UInt16 :=
  ((image.globalName? slot).bind store.imported.get?).getD (store.privates.getD slot.toNat 0)

namespace GlobalStore

variable {image : Image} {strings : List String} {store store' : GlobalStore} {answers : List UInt16}
  {maxSteps : Nat} {report : RunReport}

/-! ## Loading and saving -/

theorem length_reserve (store : GlobalStore) (image : Image) :
    (store.reserve image).privates.length = max store.privates.length image.reservedGlobals.toNat := by
  unfold reserve
  rw [List.length_append, List.length_replicate]
  omega

/-- The zeros behind the private globals are what they hold anyway. -/
theorem startValue_reserve (image : Image) (store : GlobalStore) (slot : UInt16) :
    startValue image (store.reserve image) slot = startValue image store slot := by
  unfold startValue reserve
  rw [List.getD_eq_getElem?_getD, List.getD_eq_getElem?_getD, List.getElem?_append]
  split
  · rfl
  · rename_i hbehind
    rw [List.getElem?_replicate, List.getElem?_eq_none (Nat.not_lt.1 hbehind)]
    split <;> rfl

/-- The events of a run change imported globals only. -/
theorem privates_observe (events : List HostEvent) (store : GlobalStore) :
    (events.foldl observe store).privates = store.privates := by
  induction events generalizing store with
  | nil => rfl
  | cons event rest ih =>
    refine (ih (store.observe event)).trans ?_
    unfold observe
    split <;> rfl

theorem length_savedGlobals (m : Machine) (privates : List UInt16) :
    (m.savedGlobals privates).length = privates.length := by
  rw [savedGlobals, List.length_map, List.length_zipIdx]

theorem getElem?_savedGlobals {m : Machine} {privates : List UInt16} {index : Nat} {value : UInt16}
    (hlength : index < privates.length) (hsize : index < UInt16.size)
    (hslot : m.stack.slots[index]? = some value) : (m.savedGlobals privates)[index]? = some value := by
  have hnat : (UInt16.ofNat index).toNat = index := Nat.mod_eq_of_lt hsize
  have hget : m.stack.get (UInt16.ofNat index) = .ok value :=
    OperandStack.get_eq_ok.2 (by rwa [hnat])
  unfold savedGlobals
  rw [List.getElem?_map, List.getElem?_zipIdx, List.getElem?_eq_getElem hlength, Nat.zero_add,
    Option.map_some, Option.map_some]
  dsimp only
  rw [hget]

/-! ## The parts of a run -/

/-- What a run that does not fault is made of: a start, steps from there on, and the saving of what they have
left. -/
structure Completed (image : Image) (strings : List String) (store : GlobalStore)
    (answers : List UInt16) (maxSteps : Nat) (store' : GlobalStore) (begin c : Conversation Recorder) :
    Prop where
  start : Machine.init Host.recording (store.reserve image).privates
    (beforeRun image strings store answers) = .ok () begin
  ran : Ran Host.recording (runSteps image strings store answers maxSteps) begin c
  saved : store' = c.host.events.toList.foldl observe
    { store.reserve image with privates := c.machine.savedGlobals (store.reserve image).privates }

theorem completed_of_runConversation
    (h : runConversation image strings store answers maxSteps = (store', .ok report)) :
    ∃ begin c, Completed image strings store answers maxSteps store' begin c := by
  unfold runConversation at h
  dsimp only at h
  split at h
  · cases h
  · rename_i outcome c hrun
    obtain ⟨_, begin, hinit, hsteps⟩ := bind_eq_ok.1 hrun
    cases h
    refine ⟨begin, c, hinit, ?_, rfl⟩
    have hvisited : runSteps image strings store answers maxSteps =
        Machine.visited Host.recording maxSteps begin := by
      have hstart : Machine.init Host.recording (store.reserve image).privates
          (beforeRun image strings store answers) = .ok () begin := hinit
      rw [runSteps, hstart]
    rw [hvisited]
    exact ran_of_run hsteps

section Completed

variable {begin c : Conversation Recorder}

theorem slotCount_beforeRun :
    slotCount (beforeRun image strings store answers) = OperandStack.standardSize := Array.size_replicate

theorem Completed.slotCount_begin (h : Completed image strings store answers maxSteps store' begin c) :
    slotCount begin = OperandStack.standardSize :=
  (fit_of_init h.start).2.trans slotCount_beforeRun

theorem Completed.image_begin (h : Completed image strings store answers maxSteps store' begin c) :
    begin.machine.image = image := (init_eq_ok h.start).1

theorem Completed.privates (h : Completed image strings store answers maxSteps store' begin c) :
    store'.privates = c.machine.savedGlobals (store.reserve image).privates := by
  rw [h.saved, privates_observe]

theorem Completed.length_privates (h : Completed image strings store answers maxSteps store' begin c) :
    store'.privates.length = max store.privates.length image.reservedGlobals.toNat := by
  rw [h.privates, length_savedGlobals, length_reserve]

/-- The private globals that there are have slots. -/
theorem Completed.fits (h : Completed image strings store answers maxSteps store' begin c) :
    store'.privates.length ≤ OperandStack.standardSize := by
  have hsize : slotCount (beforeRun image strings store answers) < UInt16.size := by
    rw [slotCount_beforeRun]
    decide
  have hlength := (slots_of_init hsize h.start).1
  rwa [slotCount_beforeRun, length_reserve, ← h.length_privates] at hlength

theorem Completed.slot_begin (h : Completed image strings store answers maxSteps store' begin c)
    {index : Nat} (hindex : index < store'.privates.length) :
    begin.machine.stack.slots[index]? = some (startValue image store (UInt16.ofNat index)) := by
  have hlt : index < OperandStack.standardSize := Nat.lt_of_lt_of_le hindex h.fits
  have hnat : (UInt16.ofNat index).toNat = index := Nat.mod_eq_of_lt (Nat.lt_trans hlt (by decide))
  have hsize : slotCount (beforeRun image strings store answers) < UInt16.size := by
    rw [slotCount_beforeRun]
    decide
  have hslot := (slots_of_init hsize h.start).2 (UInt16.ofNat index)
    (by rwa [hnat, slotCount_beforeRun])
  rw [hnat] at hslot
  rw [hslot, ← startValue_reserve image store]
  unfold startValue
  rw [hnat]
  rfl

/-- A private global holds after the run what its slot holds. -/
theorem Completed.saved_slot (h : Completed image strings store answers maxSteps store' begin c)
    {index : Nat} (hindex : index < store'.privates.length) {value : UInt16}
    (hslot : c.machine.stack.slots[index]? = some value) : store'.privates[index]? = some value := by
  have hlt : index < OperandStack.standardSize := Nat.lt_of_lt_of_le hindex h.fits
  rw [h.privates]
  refine getElem?_savedGlobals ?_ (Nat.lt_trans hlt (by decide)) hslot
  rwa [length_reserve, ← h.length_privates]

end Completed

/-! ## What is saved -/

/-- After a run in which no step takes a global off the stack, a private global for which the image reserves a
slot holds the value that the script stored in it last, or else the one that it had at the start.  A private
global behind these does if the steps behind the last store to it leave its slot alone. -/
theorem privates_of_runConversation
    (hrun : runConversation image strings store answers maxSteps = (store', .ok report))
    (hclear : ∀ c ∈ runSteps image strings store answers maxSteps, ClearOfGlobals c.machine) :
    store'.privates.length = max store.privates.length image.reservedGlobals.toNat ∧
      ∀ index < store'.privates.length,
        (index < image.reservedGlobals.toNat ∨
          Settled Host.recording index (runSteps image strings store answers maxSteps)) →
        store'.privates[index]? =
          some ((lastStored? index (runSteps image strings store answers maxSteps)).getD
            (startValue image store (UInt16.ofNat index))) := by
  obtain ⟨begin, c, hcompleted⟩ := completed_of_runConversation hrun
  refine ⟨hcompleted.length_privates, fun index hindex hreach => ?_⟩
  have hsize : slotCount begin < UInt16.size := by
    rw [hcompleted.slotCount_begin]
    decide
  have hsettled : Settled Host.recording index (runSteps image strings store answers maxSteps) := by
    rcases hreach with hreserved | hsettled
    · refine hcompleted.ran.settled_of_clear hclear ?_
      rwa [hcompleted.image_begin]
    · exact hsettled
  refine hcompleted.saved_slot hindex ?_
  rw [hcompleted.ran.getElem?_slots hsize hsettled, hcompleted.slot_begin hindex, Option.or_some]

/-! ## Runs of given conversations -/

theorem runConversation_of_isOk
    (h : (runConversation image strings store answers maxSteps).2.isOk = true) :
    ∃ report, runConversation image strings store answers maxSteps =
      ((runConversation image strings store answers maxSteps).1, .ok report) := by
  rcases hrun : runConversation image strings store answers maxSteps with ⟨store', fault | report⟩
  · rw [hrun] at h
    cases h
  · exact ⟨report, rfl⟩

/-- A conversation with three globals.  It adds 1 to the imported hunger, stores 7 in the private global, and
does nothing with the imported thirst. -/
def appetite : Image where
  slot := none
  stringBlock := 0
  reservedGlobals := 3
  functions := .empty
  globals := .ofList [(0, ⟨"hunger", .int⟩), (2, ⟨"thirst", .int⟩)]
  code := #[
    Opcode.pushi.toWord, 0, Opcode.pushi.toWord, 0, Opcode.fetchm.toWord, Opcode.pushi.toWord, 1,
    Opcode.add.toWord, Opcode.sto.toWord,
    Opcode.pushi.toWord, 1, Opcode.pushi.toWord, 7, Opcode.sto.toWord, Opcode.exitOp.toWord]

/-- The globals before it: one private global, and the values of the imported ones. -/
def beforeMeal : GlobalStore := ⟨[3], .ofList [("hunger", 41), ("thirst", 9)]⟩

theorem isOk_appetite : (runConversation appetite [] beforeMeal [] 100).2.isOk = true := by
  decide +kernel

theorem clear_appetite : ∀ c ∈ runSteps appetite [] beforeMeal [] 100, ClearOfGlobals c.machine := by
  decide +kernel

theorem stored_appetite :
    (List.range 3).map (fun slot => lastStored? slot (runSteps appetite [] beforeMeal [] 100)) =
      [some 42, some 7, none] := by
  decide +kernel

theorem privates_of_runConversation_appetite :
    ∃ store' report, runConversation appetite [] beforeMeal [] 100 = (store', .ok report) ∧
      store'.privates = [42, 7, 9] := by
  obtain ⟨report, hrun⟩ := runConversation_of_isOk isOk_appetite
  refine ⟨_, report, hrun, ?_⟩
  obtain ⟨hlength, hvalues⟩ := privates_of_runConversation hrun clear_appetite
  have hthree : (runConversation appetite [] beforeMeal [] 100).1.privates.length = 3 := hlength
  have hstored := stored_appetite
  simp only [List.range, List.range.loop, List.map_cons, List.map_nil, List.cons.injEq, and_true] at hstored
  obtain ⟨hzero, hone, htwo⟩ := hstored
  refine List.ext_getElem? fun index => ?_
  match index with
  | 0 =>
    rw [hvalues 0 (by omega) (Or.inl (by decide)), hzero]
    rfl
  | 1 =>
    rw [hvalues 1 (by omega) (Or.inl (by decide)), hone]
    rfl
  | 2 =>
    -- nothing is stored here, so the start value counts
    rw [hvalues 2 (by omega) (Or.inl (by decide)), htwo]
    decide
  | index + 3 =>
    rw [List.getElem?_eq_none (by omega)]
    rfl

/-- A conversation that pushes 7 and ends, with a slot for one global. -/
def pushSeven : Image :=
  { Image.ofCode #[Opcode.pushi.toWord, 7, Opcode.exitOp.toWord] with reservedGlobals := 1 }

/-- With two private globals, the second is overwritten, although the script stores nothing. -/
theorem overwritten_pushSeven :
    (runConversation pushSeven [] ⟨[3, 5], .empty⟩ [] 10).2.isOk = true ∧
      (∀ c ∈ runSteps pushSeven [] ⟨[3, 5], .empty⟩ [] 10, ClearOfGlobals c.machine) ∧
      lastStored? 1 (runSteps pushSeven [] ⟨[3, 5], .empty⟩ [] 10) = none ∧
      startValue pushSeven ⟨[3, 5], .empty⟩ 1 = 5 ∧
      (runConversation pushSeven [] ⟨[3, 5], .empty⟩ [] 10).1.privates = [3, 7] := by
  decide +kernel

end GlobalStore

end Parley
