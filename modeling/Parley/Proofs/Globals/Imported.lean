import Mathlib.Data.List.Nodup
import Parley.Proofs.Globals.Running
set_option autoImplicit false

/-!
# The imported globals in the course of a run

An imported global is kept in three places: in its slot of the memory, under its name with the host, and in the
host's list of events, from which the file is brought up to date after the run.  The start of the conversation,
the fetch and the store of a global each touch some of the three.  What is invariant is that a value which the
host has for a name stands in the slot as well, and that the events replay to the values of the host.
-/

namespace Parley

open Fallible Machine

namespace Recorder

/-! ## The events and the values of the host -/

/-- The events replay to the values of the host, from the values before the run. -/
structure Replays (imported : SortedMap String UInt16) (recorder : Recorder) : Prop where
  records : recorder.recordsGlobals = true
  replayed : ∀ store : GlobalStore, store.imported = imported →
    (recorder.events.toList.foldl GlobalStore.observe store).imported = recorder.globals

variable {imported : SortedMap String UInt16} {recorder : Recorder}

/-- An event that is no write of a global does not matter. -/
theorem Replays.note (h : Replays imported recorder) {event : HostEvent}
    (hevent : ∀ store : GlobalStore, store.observe event = store) :
    Replays imported (recorder.note event) := by
  refine ⟨h.records, fun store hstore => ?_⟩
  unfold Recorder.note
  rw [Array.toList_push, List.foldl_append, List.foldl_cons, List.foldl_nil, hevent]
  exact h.replayed store hstore

theorem steady_replays (imported : SortedMap String UInt16) :
    Steady Host.recording (Replays imported) where
  say id text recorder h := h.note fun _ => rfl
  invoke call recorder h := by
    change Replays imported (Recorder.invoke call recorder).state
    unfold Recorder.invoke
    split
    · have hrest : Replays imported { recorder with answers := recorder.answers.tail } :=
        ⟨h.records, h.replayed⟩
      exact hrest.note fun _ => rfl
    · exact h.note fun _ => rfl
  readGlobal access recorder h := by
    change Replays imported (recorder.noteGlobal _)
    rw [noteGlobal, if_pos h.records]
    exact h.note fun _ => rfl

/-- The write of an imported global changes its value with the host and in the replay. -/
theorem Replays.writeGlobal (h : Replays imported recorder) (access : GlobalAccess) :
    Replays imported (recorder.writeGlobal access) := by
  obtain ⟨slot, name, value⟩ := access
  cases name with
  | none =>
    change Replays imported (recorder.noteGlobal _)
    rw [noteGlobal, if_pos h.records]
    exact h.note fun _ => rfl
  | some name =>
    change Replays imported (noteGlobal { recorder with globals := recorder.globals.insert name value } _)
    rw [noteGlobal, if_pos h.records]
    refine ⟨h.records, fun store hstore => ?_⟩
    unfold Recorder.note
    rw [Array.toList_push, List.foldl_append, List.foldl_cons, List.foldl_nil]
    exact congrArg (·.insert name value) (h.replayed store hstore)

/-- The host gives values away without changing them. -/
theorem steady_globals (globals : SortedMap String UInt16) :
    Steady Host.recording fun recorder => recorder.globals = globals where
  say _ _ _ h := h
  invoke call recorder h := by
    change (Recorder.invoke call recorder).state.globals = globals
    unfold Recorder.invoke
    split <;> exact h
  readGlobal access recorder h := (globals_readGlobal access recorder).trans h

theorem globals_writeGlobal (access : GlobalAccess) (recorder : Recorder) :
    (recorder.writeGlobal access).globals =
      match access.name with
      | some name => recorder.globals.insert name access.value
      | none => recorder.globals := by
  obtain ⟨slot, name, value⟩ := access
  unfold Recorder.writeGlobal noteGlobal
  cases name with
  | none =>
    dsimp only
    split <;> rfl
  | some name =>
    dsimp only
    split <;> rfl

end Recorder

/-! ## The slots and the values of the host -/

/-- Whatever value is known for the name of an imported global stands in its slot. -/
def Agrees (image : Image) (slots : Array UInt16) (known : SortedMap String UInt16) : Prop :=
  ∀ entry ∈ image.globals.entries, ∀ value,
    known.get? entry.2.name = some value → slots[entry.1.toNat]? = some value

/-- No two imported globals have the same name. -/
def DistinctNames (image : Image) : Prop :=
  (image.globals.entries.map fun entry => entry.2.name).Nodup

/-- All imported globals have slots that the image reserves. -/
def ImportsReserved (image : Image) : Prop :=
  ∀ entry ∈ image.globals.entries, entry.1 < image.reservedGlobals

instance (image : Image) : Decidable (DistinctNames image) := inferInstanceAs (Decidable (List.Nodup _))

instance (image : Image) : Decidable (ImportsReserved image) :=
  inferInstanceAs (Decidable (∀ entry ∈ image.globals.entries, entry.1 < image.reservedGlobals))

variable {image : Image} {slots slots' : Array UInt16} {known imported : SortedMap String UInt16}
  {c c' : Conversation Recorder}

theorem globalName?_of_mem {entry : UInt16 × Import} (h : entry ∈ image.globals.entries) :
    image.globalName? entry.1 = some entry.2.name := by
  unfold Image.globalName?
  rw [SortedMap.get?_of_mem h]
  rfl

theorem exists_of_globalName? {slot : UInt16} {name : String} (h : image.globalName? slot = some name) :
    ∃ entry ∈ image.globals.entries, entry.1 = slot ∧ entry.2.name = name := by
  obtain ⟨item, hitem, hname⟩ := Option.map_eq_some_iff.1 h
  exact ⟨(slot, item), SortedMap.mem_of_get? hitem, rfl, hname⟩

theorem Agrees.congr (h : Agrees image slots known)
    (hsame : ∀ entry ∈ image.globals.entries, slots'[entry.1.toNat]? = slots[entry.1.toNat]?) :
    Agrees image slots' known := by
  intro entry hentry value hvalue
  rw [hsame entry hentry]
  exact h entry hentry value hvalue

/-- The slot and the value of one imported global change, and no other global has its name. -/
theorem Agrees.insert (h : Agrees image slots known) (hnames : DistinctNames image)
    {owner : UInt16 × Import} (howner : owner ∈ image.globals.entries) {value : UInt16}
    (hstored : slots'[owner.1.toNat]? = some value)
    (hother : ∀ entry ∈ image.globals.entries, entry.1 ≠ owner.1 →
      slots'[entry.1.toNat]? = slots[entry.1.toNat]?) :
    Agrees image slots' (known.insert owner.2.name value) := by
  intro entry hentry value' hvalue
  rw [SortedMap.get?_insert] at hvalue
  by_cases hname : owner.2.name = entry.2.name
  · rw [if_pos hname] at hvalue
    have hsame : owner = entry := List.inj_on_of_nodup_map hnames howner hentry hname
    rw [← hsame, hstored, hvalue]
  · rw [if_neg hname] at hvalue
    have hslot : entry.1 ≠ owner.1 := by
      intro heq
      have hnameOf := globalName?_of_mem hentry
      rw [heq, globalName?_of_mem howner] at hnameOf
      exact hname (Option.some.inj hnameOf)
    rw [hother entry hentry hslot]
    exact h entry hentry value' hvalue

/-! ## The three places in the course of steps -/

/-- The three places of the imported globals are in step: what the host has stands in the slots, and the
events replay to it. -/
structure InStep (image : Image) (imported : SortedMap String UInt16) (c : Conversation Recorder) :
    Prop where
  sameImage : c.machine.image = image
  size : slotCount c < UInt16.size
  agrees : Agrees image c.machine.stack.slots c.host.globals
  replays : c.host.Replays imported

/-- A conversation starts with the values of the host in the slots. -/
theorem inStep_of_init {privates : List UInt16} {before : Conversation Recorder}
    (hsize : slotCount before < UInt16.size) (hslots : ImportsReserved before.machine.image)
    (hreplays : before.host.Replays imported)
    (hinit : init Host.recording privates before = .ok () c) :
    InStep before.machine.image imported c := by
  obtain ⟨hfit, hcount⟩ := fit_of_init hinit
  have himage : c.machine.image = before.machine.image := (init_eq_ok hinit).1
  have hglobals := steady_init (Recorder.steady_globals before.host.globals).readGlobal privates before rfl
  have hreplayed := steady_init (Recorder.steady_replays imported).readGlobal privates before hreplays
  rw [hinit] at hglobals hreplayed
  refine ⟨himage, by rwa [hcount], fun entry hentry value hvalue => ?_, hreplayed⟩
  have hslot : entry.1.toNat < slotCount before := by
    have hreserved := UInt16.lt_iff_toNat_lt.1 (hslots entry hentry)
    unfold GlobalsFit at hfit
    rw [himage, hcount] at hfit
    omega
  have hknown : before.host.globals.get? entry.2.name = some value := by
    rw [← hvalue]
    exact congrArg (·.get? entry.2.name) hglobals.symm
  rw [(slots_of_init hsize hinit).2 entry.1 hslot, globalName?_of_mem hentry, Recorder.valueOf,
    Option.bind_some, hknown]
  rfl

/-- A step that takes no global off the stack changes the slots of imported globals by a store only. -/
theorem slots_of_clear {outcome : Step} (hsize : slotCount c < UInt16.size)
    (hslots : ImportsReserved c.machine.image) (hclear : ClearOfGlobals c.machine)
    (hstep : step Host.recording c = .ok outcome c') {entry : UInt16 × Import}
    (hentry : entry ∈ c.machine.image.globals.entries)
    (hother : ∀ address value, c.machine.store? = some (address, value) → entry.1 ≠ address) :
    c'.machine.stack.slots[entry.1.toNat]? = c.machine.stack.slots[entry.1.toNat]? := by
  have hroom := hclear (step_eq_ok hstep).1
  have hreserved := UInt16.lt_iff_toNat_lt.1 (hslots entry hentry)
  refine (framed_step hsize hstep).slots entry.1.toNat (Or.inl (by omega)) ?_
  intro address value hstore heq
  exact hother address value hstore (UInt16.toNat_inj.1 heq)

/-- A store keeps the slots and the values of the host in agreement. -/
theorem agrees_of_store {address value : UInt16} (h : Agrees image slots known)
    (hnames : DistinctNames image) (hslots : ImportsReserved image)
    (hstored : slots'[address.toNat]? = some value)
    (hother : ∀ entry ∈ image.globals.entries, entry.1 ≠ address →
      slots'[entry.1.toNat]? = slots[entry.1.toNat]?)
    {recorder : Recorder} (hknown : recorder.globals = known) :
    Agrees image slots'
      (Host.recording.told (image.globalWrite? address value) recorder).globals := by
  unfold Image.globalWrite?
  split
  · change Agrees image slots' (recorder.writeGlobal _).globals
    rw [Recorder.globals_writeGlobal, hknown]
    cases hname : image.globalName? address with
    | none =>
      refine h.congr fun entry hentry => hother entry hentry ?_
      rintro rfl
      cases hname.symm.trans (globalName?_of_mem hentry)
    | some name =>
      obtain ⟨owner, howner, rfl, rfl⟩ := exists_of_globalName? hname
      exact h.insert hnames howner hstored hother
  · rename_i hprivate
    change Agrees image slots' recorder.globals
    rw [hknown]
    refine h.congr fun entry hentry => hother entry hentry ?_
    rintro rfl
    exact hprivate (hslots entry hentry)

/-- A step that takes no global off the stack keeps the three places in step. -/
theorem InStep.step {outcome : Step} (h : InStep image imported c) (hnames : DistinctNames image)
    (hslots : ImportsReserved image) (hclear : ClearOfGlobals c.machine)
    (hstep : Machine.step Host.recording c = .ok outcome c') : InStep image imported c' := by
  obtain ⟨himage, hcount⟩ := lasting_of_step hstep
  have hother (entry : UInt16 × Import) (hentry : entry ∈ image.globals.entries) :
      (∀ address value, c.machine.store? = some (address, value) → entry.1 ≠ address) →
      c'.machine.stack.slots[entry.1.toNat]? = c.machine.stack.slots[entry.1.toNat]? :=
    slots_of_clear h.size (by rwa [h.sameImage]) hclear hstep (by rwa [h.sameImage])
  suffices hplaces : Agrees image c'.machine.stack.slots c'.host.globals ∧ c'.host.Replays imported from
    ⟨himage.trans h.sameImage, by rw [hcount]; exact h.size, hplaces.1, hplaces.2⟩
  rcases host_of_step hstep with ⟨address, value, hstore, hhost⟩ | ⟨hnone, hsteady⟩
  · have hstored := OperandStack.get_eq_ok.1 ((framed_step h.size hstep).stored address value hstore)
    rw [hhost, h.sameImage]
    constructor
    · refine agrees_of_store h.agrees hnames hslots hstored (fun entry hentry hne => ?_) rfl
      refine hother entry hentry fun address' value' hstore' => ?_
      cases hstore.symm.trans hstore'
      exact hne
    · cases image.globalWrite? address value with
      | none => exact h.replays
      | some access => exact h.replays.writeGlobal access
  · have hglobals := hsteady _ (Recorder.steady_globals c.host.globals) rfl
    refine ⟨?_, hsteady _ (Recorder.steady_replays imported) h.replays⟩
    rw [hglobals]
    exact h.agrees.congr fun entry hentry =>
      hother entry hentry fun address value hsome => by cases hnone.symm.trans hsome

/-! ## Fetches -/

/-- The next step fetches from an address, which it takes off the stack first. -/
structure Fetches (m : Machine) (address : UInt16) (rest : OperandStack) : Prop where
  opcode : m.nextOpcode? = some .fetchm
  pops : m.stack.pop = .ok (address, rest)

variable {σ : Type} {host : Host σ}

/-- A fetch from the address of a global puts the value on the stack that the host gives for it. -/
theorem fetchValue_eq_ok {c c' : Conversation σ} {address : UInt16} {rest : OperandStack}
    (hpop : c.machine.stack.pop = .ok (address, rest))
    (hglobal : address < c.machine.image.reservedGlobals) (h : fetchValue host c = .ok () c') :
    ∃ value, c.machine.stack.slots[address.toNat]? = some value ∧
      c'.machine.stack = rest.extend
        (host.readGlobal ⟨address, c.machine.image.globalName? address, value⟩ c.host).1 := by
  unfold fetchValue at h
  rw [pop_bind_of_ok hpop, current_bind] at h
  obtain ⟨value, c₁, hget, h⟩ := bind_eq_ok.1 h
  obtain ⟨hslot, rfl⟩ := lift_eq_ok hget
  have hvalue : rest.slots[address.toNat]? = some value := OperandStack.get_eq_ok.1 hslot
  rw [OperandStack.slots_of_pop hpop] at hvalue
  rw [if_pos (show address < (c.withStack rest).machine.image.reservedGlobals from hglobal)] at h
  obtain ⟨given, c₂, hread, hpush⟩ := bind_eq_ok.1 h
  cases hread
  refine ⟨value, hvalue, ?_⟩
  rw [push_eq_ok hpush]
  rfl

theorem stack_of_fetches {c c' : Conversation σ} {outcome : Step}
    {address : UInt16} {rest : OperandStack} (hfetches : Fetches c.machine address rest)
    (hglobal : address < c.machine.image.reservedGlobals)
    (hstep : step host c = .ok outcome c') :
    ∃ value, c.machine.stack.slots[address.toNat]? = some value ∧
      c'.machine.stack = rest.extend
        (host.readGlobal ⟨address, c.machine.image.globalName? address, value⟩ c.host).1 := by
  obtain ⟨hgoing, opcode, operand, flow, c₁, hfetch, hperform⟩ := step_eq_ok hstep
  have hopcode : opcode = .fetchm :=
    Option.some.inj ((nextOpcode?_of_fetched hgoing hfetch).symm.trans hfetches.opcode)
  subst hopcode
  have hstack := (final_step_of_fetched host hgoing hfetch).1
  rw [hstep, hperform, final_ok, final_ok] at hstack
  obtain ⟨_, c₂, hvalue, hflow⟩ := bind_eq_ok.1 hperform
  cases (pure_eq_ok.1 hflow).2
  obtain ⟨value, hslot, hput⟩ := fetchValue_eq_ok hfetches.pops hglobal hvalue
  exact ⟨value, hslot, hstack.trans hput⟩

/-- The host gives the value of the slot, where the two agree. -/
theorem InStep.readGlobal (h : InStep image imported c) {entry : UInt16 × Import}
    (hentry : entry ∈ image.globals.entries) {value : UInt16}
    (hslot : c.machine.stack.slots[entry.1.toNat]? = some value) :
    (Host.recording.readGlobal ⟨entry.1, image.globalName? entry.1, value⟩ c.host).1 = value := by
  change ((image.globalName? entry.1).bind c.host.globals.get?).getD value = value
  rw [globalName?_of_mem hentry, Option.bind_some]
  cases hknown : c.host.globals.get? entry.2.name with
  | none => rfl
  | some known => exact Option.some.inj ((h.agrees entry hentry known hknown).symm.trans hslot)

namespace GlobalStore

variable {strings : List String} {store store' : GlobalStore} {answers : List UInt16} {maxSteps : Nat}
  {report : RunReport} {begin : Conversation Recorder}

theorem replays_beforeRun :
    (beforeRun image strings store answers).host.Replays store.imported :=
  ⟨rfl, fun _ hsame => hsame⟩

/-- The three places are in step at each step of a run and after it. -/
theorem Completed.inStep (h : Completed image strings store answers maxSteps store' begin c)
    (hnames : DistinctNames image) (hslots : ImportsReserved image)
    (hclear : ∀ c ∈ runSteps image strings store answers maxSteps, ClearOfGlobals c.machine) :
    InStep image store.imported c ∧
      ∀ c ∈ runSteps image strings store answers maxSteps, InStep image store.imported c := by
  have hsize : slotCount (beforeRun image strings store answers) < UInt16.size := by
    rw [slotCount_beforeRun]
    decide
  have hbegin : InStep image store.imported begin :=
    inStep_of_init hsize hslots replays_beforeRun h.start
  exact h.ran.upholds (InStep image store.imported)
    (fun hclearOf hinStep hstep => hinStep.step hnames hslots hclearOf hstep) hclear hbegin

/-- After a run in which no step takes a global off the stack, an imported global has the same value by name
and by slot, if it has one by name.  And at each point of the run, the fetch of an imported global puts the
value on the stack that stands in its slot. -/
theorem imported_of_runConversation (hnames : DistinctNames image) (hslots : ImportsReserved image)
    (hrun : runConversation image strings store answers maxSteps = (store', .ok report))
    (hclear : ∀ c ∈ runSteps image strings store answers maxSteps, ClearOfGlobals c.machine) :
    (∀ entry ∈ image.globals.entries, ∀ value, store'.imported.get? entry.2.name = some value →
      store'.privates[entry.1.toNat]? = some value) ∧
    ∀ c ∈ runSteps image strings store answers maxSteps, ∀ entry ∈ image.globals.entries, ∀ rest,
      Fetches c.machine entry.1 rest →
      ∃ value outcome c', c.machine.stack.slots[entry.1.toNat]? = some value ∧
        step Host.recording c = .ok outcome c' ∧ c'.machine.stack = rest.extend value := by
  obtain ⟨begin, last, hcompleted⟩ := completed_of_runConversation hrun
  obtain ⟨hlast, hsteps⟩ := hcompleted.inStep hnames hslots hclear
  constructor
  · intro entry hentry value hvalue
    have himported : store'.imported = last.host.globals := by
      rw [hcompleted.saved]
      exact hlast.replays.replayed _ rfl
    have hreserved := UInt16.lt_iff_toNat_lt.1 (hslots entry hentry)
    refine hcompleted.saved_slot ?_ (hlast.agrees entry hentry value ?_)
    · rw [hcompleted.length_privates]
      omega
    · rwa [← himported]
  · intro c hc entry hentry rest hfetches
    have hinStep := hsteps c hc
    obtain ⟨outcome, c', hstep⟩ := hcompleted.ran.exists_step hc
    have hglobal : entry.1 < c.machine.image.reservedGlobals := by
      rw [hinStep.sameImage]
      exact hslots entry hentry
    obtain ⟨value, hslot, hstack⟩ := stack_of_fetches hfetches hglobal hstep
    rw [hinStep.sameImage, hinStep.readGlobal hentry hslot] at hstack
    exact ⟨value, outcome, c', hslot, hstep, hstack⟩

theorem fetches_appetite :
    ∃ c ∈ runSteps appetite [] beforeMeal [] 100, c.machine.nextOpcode? = some .fetchm ∧
      c.machine.stack.pop.toOption.map (·.1) = some 0 := by
  decide +kernel

theorem imported_of_runConversation_appetite :
    ∃ store' report, runConversation appetite [] beforeMeal [] 100 = (store', .ok report) ∧
      store'.imported.get? "hunger" = some 42 ∧ store'.privates[0]? = some 42 ∧
      ∃ c ∈ runSteps appetite [] beforeMeal [] 100, ∃ rest, Fetches c.machine 0 rest ∧
        ∃ value outcome c', c.machine.stack.slots[0]? = some value ∧
          step Host.recording c = .ok outcome c' ∧ c'.machine.stack = rest.extend value := by
  obtain ⟨report, hrun⟩ := runConversation_of_isOk isOk_appetite
  have hnames : DistinctNames appetite := by decide
  have hslots : ImportsReserved appetite := by decide
  obtain ⟨himported, hfetched⟩ := imported_of_runConversation hnames hslots hrun clear_appetite
  have hentry : (0, ⟨"hunger", .int⟩) ∈ appetite.globals.entries := by decide
  have hknown : (runConversation appetite [] beforeMeal [] 100).1.imported.get? "hunger" = some 42 := by
    decide +kernel
  obtain ⟨c, hc, hopcode, hpop⟩ := fetches_appetite
  obtain ⟨popped, hpopped, hzero⟩ := Option.map_eq_some_iff.1 hpop
  obtain ⟨address, rest⟩ := popped
  cases hzero
  have hfetches : Fetches c.machine 0 rest := ⟨hopcode, except_toOption_eq_some.1 hpopped⟩
  exact ⟨_, report, hrun, hknown, himported _ hentry 42 hknown, c, hc, rest, hfetches,
    hfetched c hc _ hentry rest hfetches⟩

end GlobalStore

end Parley
