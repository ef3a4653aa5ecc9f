import Parley.Proofs.Machine.Run
import Parley.Proofs.SortedMap
import Parley.ScriptedRun
set_option autoImplicit false

/-!
# The globals at the start of a run

The private globals are loaded into the slots of the memory in order, and zeros stand behind them.  Then each
imported global takes the value that the host has for its name; if it has none, the one that was loaded
stays.
-/

namespace Parley

open Fallible

namespace Machine

variable {σ : Type} {c c' : Conversation σ}

/-- Values are loaded into the slots from `slot` on, where there are as many. -/
theorem slots_of_loadGlobals {slot : Nat} {values : List UInt16} (hslot : slot ≤ slotCount c)
    (hsize : slotCount c < UInt16.size) (h : loadGlobals slot values c = .ok () c') :
    slot + values.length ≤ slotCount c ∧
      ∀ index, c'.machine.stack.slots[index]? =
        if index < slot then c.machine.stack.slots[index]?
        else values[index - slot]?.or c.machine.stack.slots[index]? := by
  induction values generalizing slot c with
  | nil =>
    cases h
    refine ⟨hslot, fun index => ?_⟩
    rw [List.getElem?_nil, Option.none_or, ite_self]
  | cons value rest ih =>
    obtain ⟨_, c₁, hwrite, hrest⟩ := bind_eq_ok.1 h
    obtain ⟨hfound, rfl⟩ := write_eq_ok hwrite
    have hnat : (UInt16.ofNat slot).toNat = slot := Nat.mod_eq_of_lt (Nat.lt_of_le_of_lt hslot hsize)
    have hlt : slot < slotCount c := by
      rw [← hnat]
      exact OperandStack.hasSlot_iff.1 hfound
    have hcount : slotCount (c.withStack (c.machine.stack.write (UInt16.ofNat slot) value)) = slotCount c :=
      Array.size_setIfInBounds
    obtain ⟨hlength, hslots⟩ := ih (by rw [hcount]; exact hlt) (by rw [hcount]; exact hsize) hrest
    rw [hcount] at hlength
    refine ⟨by rw [List.length_cons]; omega, fun index => ?_⟩
    rw [hslots index]
    dsimp only [Conversation.withStack, OperandStack.write]
    rw [hnat, Array.getElem?_setIfInBounds]
    rcases Nat.lt_trichotomy index slot with hbelow | rfl | habove
    · rw [if_pos (by omega), if_pos hbelow, if_neg (by omega)]
    · rw [if_pos (Nat.lt_succ_self _), if_neg (Nat.lt_irrefl _), if_pos rfl, Nat.sub_self]
      exact if_pos hlt
    · rw [if_neg (by omega), if_neg (by omega), if_neg (by omega),
        show index - slot = index - (slot + 1) + 1 by omega, List.getElem?_cons_succ]

end Machine

namespace Recorder

/-- The value of a global whose name, if it has one, is given, and which holds `value` otherwise. -/
def valueOf (recorder : Recorder) (name : Option String) (value : UInt16) : UInt16 :=
  (name.bind recorder.globals.get?).getD value

end Recorder

namespace Machine

variable {c c' : Conversation Recorder}

theorem importGlobal_eq_ok {slot : UInt16} {item : Import}
    (h : importGlobal Host.recording slot item c = .ok () c') :
    ∃ value, c.machine.stack.slots[slot.toNat]? = some value ∧
      c'.machine.stack.slots = c.machine.stack.slots.setIfInBounds slot.toNat
        (c.host.valueOf (some item.name) value) ∧
      c'.host = (c.host.readGlobal ⟨slot, some item.name, value⟩).2 := by
  unfold importGlobal at h
  rw [current_bind] at h
  obtain ⟨value, c₁, hget, h⟩ := bind_eq_ok.1 h
  obtain ⟨read, c₂, hread, hwrite⟩ := bind_eq_ok.1 h
  obtain ⟨hslot, rfl⟩ := lift_eq_ok hget
  cases hread
  obtain ⟨-, rfl⟩ := write_eq_ok hwrite
  exact ⟨value, OperandStack.get_eq_ok.1 hslot, rfl, rfl⟩

/-- A recorder does not change a value when it gives it. -/
theorem globals_readGlobal (access : GlobalAccess) (recorder : Recorder) :
    (recorder.readGlobal access).2.globals = recorder.globals := by
  unfold Recorder.readGlobal Recorder.noteGlobal
  dsimp only
  split <;> rfl

/-- The name of the entry for a slot. -/
def nameAt? (entries : List (UInt16 × Import)) (slot : UInt16) : Option String :=
  ((entries.find? fun entry => entry.1 = slot).map (·.2)).map (·.name)

/-- Slots that are no two of them the same take their values from the host. -/
theorem slots_of_importGlobals {entries : List (UInt16 × Import)}
    (hslots : entries.Pairwise fun a b => a.1 ≠ b.1)
    (h : importGlobals Host.recording entries c = .ok () c') (slot : UInt16) :
    c'.machine.stack.slots[slot.toNat]? =
      c.machine.stack.slots[slot.toNat]?.map (c.host.valueOf (nameAt? entries slot)) := by
  induction entries generalizing c with
  | nil =>
    cases h
    exact Option.map_id'.symm
  | cons entry rest ih =>
    obtain ⟨key, item⟩ := entry
    obtain ⟨hfirst, hrest⟩ := List.pairwise_cons.1 hslots
    obtain ⟨_, c₁, himport, hlater⟩ := bind_eq_ok.1 h
    obtain ⟨value, hvalue, hslots₁, hhost⟩ := importGlobal_eq_ok himport
    have hglobals : c₁.host.valueOf = c.host.valueOf := by
      unfold Recorder.valueOf
      rw [hhost, globals_readGlobal]
    rw [ih hrest hlater, hglobals, hslots₁]
    by_cases hkey : key = slot
    · subst hkey
      have hnone : nameAt? rest key = none := by
        unfold nameAt?
        rw [List.find?_eq_none.2 fun other hother => by simpa using Ne.symm (hfirst other hother)]
        rfl
      have hsome : nameAt? ((key, item) :: rest) key = some item.name := by
        simp [nameAt?]
      have hlt := (Array.getElem?_eq_some_iff.1 hvalue).1
      rw [Array.getElem?_setIfInBounds_self_of_lt hlt, hvalue, hnone, hsome]
      rfl
    · have hsame : nameAt? ((key, item) :: rest) slot = nameAt? rest slot := by
        simp [nameAt?, hkey]
      have hne : key.toNat ≠ slot.toNat := fun heq => hkey (UInt16.toNat_inj.1 heq)
      rw [Array.getElem?_setIfInBounds_ne hne, hsame]

/-- A conversation starts with an empty memory, into which the private globals are loaded and then the
imported ones. -/
theorem parts_of_init {privates : List UInt16} (h : init Host.recording privates c = .ok () c') :
    ∃ begin loaded : Conversation Recorder,
      begin.machine.stack.slots = Array.replicate (slotCount c) 0 ∧ begin.host = c.host ∧
      loadGlobals 0 privates begin = .ok () loaded ∧
      importGlobals Host.recording c.machine.image.globals.entries loaded = .ok () c' := by
  unfold init at h
  obtain ⟨_, c₁, hstart, h⟩ := bind_eq_ok.1 h
  cases hstart
  rw [current_bind] at h
  obtain ⟨_, c₂, hsp, h⟩ := bind_eq_ok.1 h
  obtain ⟨_, c₃, hload, himport⟩ := bind_eq_ok.1 h
  obtain ⟨stack, hstack, rfl⟩ := onStack_eq_ok.1 hsp
  exact ⟨Conversation.withStack { c with machine := c.machine.atStart } stack, c₃,
    OperandStack.slots_of_setSp hstack, rfl, hload, himport⟩

/-- The memory at the start of a run. -/
theorem slots_of_init {privates : List UInt16} (hsize : slotCount c < UInt16.size)
    (h : init Host.recording privates c = .ok () c') :
    privates.length ≤ slotCount c ∧ ∀ slot : UInt16, slot.toNat < slotCount c →
      c'.machine.stack.slots[slot.toNat]? =
        some (c.host.valueOf (c.machine.image.globalName? slot) (privates.getD slot.toNat 0)) := by
  obtain ⟨begin, loaded, hzero, hhost, hload, himport⟩ := parts_of_init h
  have hcount : slotCount begin = slotCount c := by
    unfold slotCount at hzero ⊢
    rw [hzero, Array.size_replicate]
  obtain ⟨hlength, hloaded⟩ := slots_of_loadGlobals (Nat.zero_le _) (by rwa [hcount]) hload
  rw [hcount, Nat.zero_add] at hlength
  refine ⟨hlength, fun slot hslot => ?_⟩
  have hzeroAt : begin.machine.stack.slots[slot.toNat]? = some 0 := by
    rw [hzero, Array.getElem?_replicate]
    exact if_pos hslot
  have hvalue : loaded.machine.stack.slots[slot.toNat]? = some (privates.getD slot.toNat 0) := by
    rw [hloaded, if_neg (Nat.not_lt_zero _), Nat.sub_zero, hzeroAt, Option.or_some,
      List.getD_eq_getElem?_getD]
  have hsame : loaded.host = begin.host :=
    ((stackless_loadGlobals 0 privates).comp Conversation.host).of_ok hload
  have himported := slots_of_importGlobals (SortedMap.pairwise_ne _) himport slot
  rw [hvalue, hsame, hhost] at himported
  exact himported

end Machine

end Parley
