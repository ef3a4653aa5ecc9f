import Parley.Proofs.Machine.Fault
import Parley.Proofs.Globals.Start
set_option autoImplicit false

/-!
# What fails and what is left

A machine is started, stepped and run, any number of times and in any order.  Whatever a step or a run fails with, the
machine is finished then, and refuses to go on.  A start fails exactly if the globals do not fit into the memory, and
leaves a machine that goes on from the first word of its code.
-/

namespace Parley.Machine

open Fallible

variable {σ : Type} {host : Host σ} {c c' : Conversation σ} {fault : MachineFault}

/-! ## Orders -/

/-- What a machine is told to do. -/
inductive Order where
  | init (globals : List UInt16)
  | step
  | run (limit : Nat)

/-- The conversation after an order, whether it could be carried out or not. -/
def Order.carryOut (host : Host σ) (c : Conversation σ) : Order → Conversation σ
  | .init globals => final (Machine.init host globals c)
  | .step => final (Machine.step host c)
  | .run limit => final (Machine.run host limit c)

/-- The conversation after orders given one after the other. -/
def carryOutAll (host : Host σ) (orders : List Order) (c : Conversation σ) : Conversation σ :=
  orders.foldl (Order.carryOut host) c

theorem lasting_runFrom (steps limit : Nat) (c : Conversation σ) :
    (final (runFrom host steps limit c)).machine.image = c.machine.image ∧
      slotCount (final (runFrom host steps limit c)) = slotCount c := by
  induction limit generalizing steps c with
  | zero => exact ⟨rfl, rfl⟩
  | succ limit ih =>
    have hstep := lasting_step host c
    unfold runFrom
    split
    · rename_i c₁ heq
      rw [heq] at hstep
      exact ⟨(ih _ c₁).1.trans hstep.1, (ih _ c₁).2.trans hstep.2⟩
    · rename_i heq
      rwa [heq] at hstep
    · rename_i heq
      rwa [heq] at hstep

/-- No order changes the image or the number of slots. -/
theorem lasting_carryOut (order : Order) :
    (order.carryOut host c).machine.image = c.machine.image ∧ slotCount (order.carryOut host c) = slotCount c := by
  cases order with
  | init globals =>
    have hlasting := lasting_init host globals c
    exact ⟨congrArg (·.1.image) hlasting, congrArg Prod.snd hlasting⟩
  | step => exact lasting_step host c
  | run limit => exact lasting_runFrom 0 limit c

variable (host) in
theorem lasting_carryOutAll (orders : List Order) (c : Conversation σ) :
    (carryOutAll host orders c).machine.image = c.machine.image ∧
      slotCount (carryOutAll host orders c) = slotCount c := by
  induction orders generalizing c with
  | nil => exact ⟨rfl, rfl⟩
  | cons order rest ih =>
    obtain ⟨himage, hsize⟩ := ih (order.carryOut host c)
    exact ⟨himage.trans (lasting_carryOut order).1, hsize.trans (lasting_carryOut order).2⟩

/-! ## Steps and runs that fail -/

theorem finished_of_step_error (h : step host c = .error fault c') : c'.machine.finished = true := by
  have hstep := stepped host c
  rw [h] at hstep
  cases hstep with
  | refused hfinished => exact hfinished
  | unfetched => rfl
  | faulted => rfl

theorem finished_of_runFrom_error {steps limit : Nat} (h : runFrom host steps limit c = .error fault c') :
    c'.machine.finished = true := by
  induction limit generalizing steps c with
  | zero => cases h
  | succ limit ih =>
    unfold runFrom at h
    split at h
    · exact ih h
    · cases h
    · rename_i heq
      cases h
      exact finished_of_step_error heq

/-! ## Starts that fail -/

/-- The globals that a start loads fit into a number of slots. -/
structure Loads (slots : Nat) (image : Image) (globals : List UInt16) : Prop where
  reserved : image.reservedGlobals.toNat ≤ slots
  privates : globals.length ≤ slots
  imported : ∀ entry ∈ image.globals.entries, entry.1.toNat < slots

theorem slotCount_of_ok {α : Type} {x : Exec σ α} {a : α} (hx : Keeps lasting x) (h : x c = .ok a c') :
    slotCount c' = slotCount c := congrArg Prod.snd (hx.of_ok h)

theorem setSp_of_le {stack : OperandStack} {reserved : UInt16} (h : reserved.toNat ≤ stack.slots.size) :
    ∃ stack', stack.setSp (reserved - 1) = .ok stack' := by
  refine ⟨_, if_pos ?_⟩
  by_cases hzero : reserved = 0
  · rw [hzero]
    exact Or.inl rfl
  · have hpos : reserved.toNat ≠ 0 := fun h => hzero (UInt16.toNat_inj.1 h)
    have hpred : (reserved - 1).toNat = reserved.toNat - 1 :=
      UInt16.toNat_sub_of_le _ _ (UInt16.le_iff_toNat_le.2 (Nat.one_le_iff_ne_zero.2 hpos))
    exact Or.inr (by omega)

theorem setSp_of_gt {sp : UInt16} (hsp : sp ≠ OperandStack.emptySp) (h : slotCount c ≤ sp.toNat) :
    onStack (·.setSp sp) c = .error (.stackOverflow sp) c := by
  have hstack : c.machine.stack.setSp sp = .error (.stackOverflow sp) :=
    if_neg fun hor => hor.elim hsp (Nat.not_lt_of_le h)
  simp only [onStack, hstack]

theorem succeeds_setSp {reserved : UInt16} :
    Succeeds (onStack (·.setSp (reserved - 1))) c ↔ reserved.toNat ≤ slotCount c := by
  constructor
  · rintro ⟨_, c', h⟩
    obtain ⟨stack, hstack, -⟩ := onStack_eq_ok.1 h
    exact globalsFit_of_setSp hstack
  · intro h
    obtain ⟨stack, hstack⟩ := setSp_of_le h
    exact ⟨(), _, onStack_eq_ok.2 ⟨stack, hstack, rfl⟩⟩

theorem succeeds_write {index value : UInt16} : Succeeds (write index value) c ↔ index.toNat < slotCount c := by
  constructor
  · rintro ⟨_, c', h⟩
    exact OperandStack.hasSlot_iff.1 (write_eq_ok h).1
  · exact fun h => ⟨(), _, if_pos (OperandStack.hasSlot_iff.2 h)⟩

theorem succeeds_loadGlobals {slot : Nat} {values : List UInt16} (hslot : slot ≤ slotCount c)
    (hsize : slotCount c < UInt16.size) :
    Succeeds (loadGlobals slot values) c ↔ slot + values.length ≤ slotCount c := by
  -- The slots below the limit of a word are numbered without wrapping, so no write goes to a slot before.
  induction values generalizing slot c with
  | nil => exact ⟨fun _ => hslot, fun _ => ⟨(), c, rfl⟩⟩
  | cons value rest ih =>
    have hnat : (UInt16.ofNat slot).toNat = slot := Nat.mod_eq_of_lt (Nat.lt_of_le_of_lt hslot hsize)
    have hrest : ∀ u c₁, write (UInt16.ofNat slot) value c = .ok u c₁ →
        (Succeeds (loadGlobals (slot + 1) rest) c₁ ↔ slot + 1 + rest.length ≤ slotCount c) := by
      intro u c₁ hwrite
      have hlt := succeeds_write.1 ⟨u, c₁, hwrite⟩
      have hcount := slotCount_of_ok (lasting_write _ _) hwrite
      rw [hnat] at hlt
      rw [← hcount] at hlt hsize ⊢
      exact ih hlt hsize
    rw [loadGlobals, succeeds_bind_iff hrest, succeeds_write, hnat, List.length_cons]
    omega

theorem succeeds_importGlobal {slot : UInt16} {item : Import} :
    Succeeds (importGlobal host slot item) c ↔ slot.toNat < slotCount c := by
  unfold importGlobal Succeeds
  simp only [current_bind]
  constructor
  · rintro ⟨_, c', h⟩
    obtain ⟨value, c₁, hget, -⟩ := bind_eq_ok.1 h
    exact (Array.getElem?_eq_some_iff.1 (OperandStack.get_eq_ok.1 (lift_eq_ok hget).1)).1
  · intro h
    have hget : c.machine.stack.get slot = .ok c.machine.stack.slots[slot.toNat] :=
      OperandStack.get_eq_ok.2 (Array.getElem?_eq_getElem h)
    rw [lift_bind_of_ok hget]
    exact succeeds_write.2 h

theorem succeeds_importGlobals {entries : List (UInt16 × Import)} :
    Succeeds (importGlobals host entries) c ↔ ∀ entry ∈ entries, entry.1.toNat < slotCount c := by
  induction entries generalizing c with
  | nil => exact ⟨fun _ _ h => absurd h List.not_mem_nil, fun _ => ⟨(), c, rfl⟩⟩
  | cons entry rest ih =>
    obtain ⟨slot, item⟩ := entry
    have hrest : ∀ u c₁, importGlobal host slot item c = .ok u c₁ →
        (Succeeds (importGlobals host rest) c₁ ↔ ∀ entry ∈ rest, entry.1.toNat < slotCount c) := by
      intro u c₁ himport
      rw [ih, slotCount_of_ok (lasting_importGlobal _ _ _) himport]
    rw [importGlobals, succeeds_bind_iff hrest, succeeds_importGlobal, List.forall_mem_cons]

theorem succeeds_globals {globals : List UInt16} {entries : List (UInt16 × Import)}
    (hsize : slotCount c < UInt16.size) :
    Succeeds (do loadGlobals 0 globals; importGlobals host entries) c ↔
      globals.length ≤ slotCount c ∧ ∀ entry ∈ entries, entry.1.toNat < slotCount c := by
  have himport : ∀ u c₁, loadGlobals 0 globals c = .ok u c₁ →
      (Succeeds (importGlobals host entries) c₁ ↔ ∀ entry ∈ entries, entry.1.toNat < slotCount c) := by
    intro u c₁ hload
    rw [succeeds_importGlobals, slotCount_of_ok (lasting_loadGlobals _ _) hload]
  rw [succeeds_bind_iff himport, succeeds_loadGlobals (Nat.zero_le _) hsize, Nat.zero_add]

/-- The conversation at its start, before the stack pointer is set. -/
def started (c : Conversation σ) : Conversation σ := { c with machine := c.machine.atStart }

theorem slotCount_started : slotCount (started c) = slotCount c := Array.size_replicate

/-- At its start a conversation has the stack pointer set and its globals loaded. -/
theorem init_eq (globals : List UInt16) :
    init host globals c = (onStack (·.setSp (c.machine.image.reservedGlobals - 1)) >>= fun _ => do
      loadGlobals 0 globals
      importGlobals host c.machine.image.globals.entries) (started c) := rfl

/-- A start succeeds exactly if the globals have slots. -/
theorem succeeds_init {globals : List UInt16} (hsize : slotCount c < UInt16.size) :
    Succeeds (init host globals) c ↔ Loads (slotCount c) c.machine.image globals := by
  have hglobals : ∀ u c₁, onStack (·.setSp (c.machine.image.reservedGlobals - 1)) (started c) = .ok u c₁ →
      (Succeeds (do loadGlobals 0 globals; importGlobals host c.machine.image.globals.entries) c₁ ↔
        globals.length ≤ slotCount c ∧ ∀ entry ∈ c.machine.image.globals.entries, entry.1.toNat < slotCount c) := by
    intro u c₁ hsp
    have hcount : slotCount c₁ = slotCount c := (slotCount_of_ok (lasting_setSp _) hsp).trans slotCount_started
    rw [← hcount] at hsize ⊢
    exact succeeds_globals hsize
  have hstages := succeeds_bind_iff hglobals
  rw [succeeds_setSp, slotCount_started] at hstages
  exact hstages.trans ⟨fun ⟨hreserved, hprivates, himported⟩ => ⟨hreserved, hprivates, himported⟩,
    fun ⟨hreserved, hprivates, himported⟩ => ⟨hreserved, hprivates, himported⟩⟩

/-- After whatever a machine has been told to do: if a step or a run fails, the machine is finished, and no further step
or run changes anything or calls the host.  A start fails exactly if the globals do not fit into the memory; then the
machine is not finished, and stands at the first word of its code. -/
theorem failures_of_orders (image : Image) (strings : List String) (host : Host σ) (state : σ) (orders : List Order) :
    let c := carryOutAll host orders ⟨ofImage image strings, state⟩
    (∀ fault c', step host c = .error fault c' → c'.machine.finished = true ∧ Over host c') ∧
    (∀ limit fault c', run host limit c = .error fault c' → c'.machine.finished = true ∧ Over host c') ∧
    (∀ globals, (∃ fault c', init host globals c = .error fault c') ↔
      ¬ Loads OperandStack.standardSize image globals) ∧
    ∀ globals fault c', init host globals c = .error fault c' →
      c'.machine.finished = false ∧ c'.machine.ip = 0 ∧ c'.machine.image = image := by
  intro c
  have hlasting := lasting_carryOutAll host orders ⟨ofImage image strings, state⟩
  have himage : c.machine.image = image := hlasting.1
  have hslots : slotCount c = OperandStack.standardSize := hlasting.2.trans Array.size_replicate
  have hsize : slotCount c < UInt16.size := by
    rw [hslots]
    decide
  refine ⟨fun fault c' h => ?_, fun limit fault c' h => ?_, fun globals => ?_, fun globals fault c' h => ?_⟩
  · have hfinished := finished_of_step_error h
    exact ⟨hfinished, over_of_finished hfinished⟩
  · have hfinished := finished_of_runFrom_error h
    exact ⟨hfinished, over_of_finished hfinished⟩
  · rw [exists_error_iff, succeeds_init hsize, hslots, himage]
  · have hlasting := lasting_init host globals c
    rw [h] at hlasting
    have hfixed := congrArg Prod.fst hlasting
    exact ⟨congrArg Fixed.finished hfixed, congrArg Fixed.ip hfixed, (congrArg Fixed.image hfixed).trans himage⟩

/-- A conversation that reserves more globals than there are slots. -/
def overReserved : Image := { Image.ofCode #[0, 38] with reservedGlobals := 5000 }

/-- Behind its first instruction stands a word that is no opcode. -/
def straying : Image := .ofCode #[0, 999]

theorem failures_of_orders_straying :
    (∃ c' : Conversation Unit,
      step Host.silent (carryOutAll Host.silent [.init [], .step] ⟨ofImage straying [], ()⟩) =
        .error (.unknownOpcode 1 999) c' ∧ c'.machine.finished = true ∧ Over Host.silent c') ∧
      (∃ c' : Conversation Unit,
        run Host.silent 5 (carryOutAll Host.silent [.init []] ⟨ofImage straying [], ()⟩) =
          .error (.unknownOpcode 1 999) c' ∧ c'.machine.finished = true ∧ Over Host.silent c') ∧
      ∃ (fault : MachineFault) (c' : Conversation Unit),
        init Host.silent [] (carryOutAll Host.silent [.run 5] ⟨ofImage overReserved [], ()⟩) = .error fault c' ∧
        c'.machine.finished = false := by
  have hfull : ¬ Loads OperandStack.standardSize overReserved [] := fun h => absurd h.reserved (by decide)
  have hover := failures_of_orders overReserved [] Host.silent () [.run 5]
  obtain ⟨fault, c', hinit⟩ := (hover.2.2.1 []).2 hfull
  have hstray := failures_of_orders straying [] Host.silent ()
  exact ⟨⟨_, rfl, (hstray [.init [], .step]).1 _ _ rfl⟩, ⟨_, rfl, (hstray [.init []]).2.1 5 _ _ rfl⟩,
    fault, c', hinit, (hover.2.2.2 [] fault c' hinit).1⟩

/-- A machine whose start has failed carries out instructions. -/
theorem goesOn_overReserved :
    ∃ c₁ c₂ : Conversation Unit,
      init Host.silent [] ⟨ofImage overReserved [], ()⟩ = .error (.stackOverflow 4999) c₁ ∧
      c₁.machine.finished = false ∧ step Host.silent c₁ = .ok .continue c₂ ∧ c₂.machine.ip = 1 := by
  have hcount : slotCount (started ⟨ofImage overReserved [], ()⟩) = 4096 :=
    slotCount_started.trans Array.size_replicate
  have hfull : onStack (·.setSp (overReserved.reservedGlobals - 1)) (started ⟨ofImage overReserved [], ()⟩) =
      .error (.stackOverflow 4999) (started ⟨ofImage overReserved [], ()⟩) :=
    setSp_of_gt (by decide) (by rw [hcount]; decide)
  exact ⟨_, _, (init_eq []).trans (bind_of_error hfull), rfl, rfl, rfl⟩

end Parley.Machine
