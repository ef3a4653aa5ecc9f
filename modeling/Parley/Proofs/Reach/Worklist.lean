import Parley.Proofs.Reach.Function
import Parley.Proofs.Reach.Relation
set_option autoImplicit false

/-!
# The functions that are decompiled are those that are reached

Functions are taken off a queue, and what a function calls is put at its end.  A turn either finds a function
decompiled or replaces all calls in it, and puts no more functions into the queue than it replaces calls.  So the
queue is empty when decompilation ends without a fault.
-/

namespace Parley

open Fallible

namespace Decompilation

variable {found d d' : Decompilation} {marked : List ItemId} {lines : List (ItemId × StatementRole)}
  {done : List (Nat × ItemId)} {queue callees : List Nat} {func : Nat} {f : Frame} {fault : DecompileFault}

/-! ## Calls that have been replaced -/

theorem extends_of_marking (h : (found.marking marked).Advances lines d) : found.graph.Extends d.graph :=
  (Graph.extends_markAll found.graph marked).trans h.grows.extends

/-- Apart from what has been marked on purpose all items are kept. -/
theorem kept_of_notMem (h : (found.marking marked).Advances lines d) {id : ItemId}
    (hid : id < found.graph.size) (hmarked : id ∉ marked) :
    (found.graph.item id).Kept (d.graph.item id) := by
  have hkept := h.grows.kept id (Nat.lt_of_lt_of_eq hid (Graph.size_markAll found.graph marked).symm)
  rwa [show (found.marking marked).graph.item id = found.graph.item id from
    Graph.item_markAll_of_notMem found.graph hmarked] at hkept

/-- The calls of a function that are left open are all of its calls, as long as none has been marked. -/
theorem openCalls_body (hfound : found.Surveyed) (h : (found.marking marked).Advances lines d)
    (hf : found.frames[func]? = some f) (hnew : ∀ call ∈ found.calls func, call ∉ marked) :
    d.openCalls (d.body func) = found.calls func := by
  have hextends := extends_of_marking h
  have hfits := hfound.placed.framed.fits f (List.mem_of_getElem? hf)
  have hold : (d.body func).filter (· < found.graph.size) = found.body func := by
    rw [body_of_getElem? hf, body_of_getElem? (h.frames ▸ hf)]
    exact hextends.filter_between hfound.sound.ordered h.sound.ordered (hfits.front_site hfound.sound).lt_size
      (hfits.back_site hfound.sound).lt_size
  have hopen : d.openCalls (d.body func) = d.openCalls (found.body func) := by
    rw [← hold, openCalls, openCalls, List.filter_filter]
    refine List.filter_congr fun id _ => ?_
    by_cases hid : id < found.graph.size
    · simp [hid]
    · have hfresh := hextends.fresh id (Nat.le_of_not_lt hid)
      cases hcall : (d.graph.item id).isOpenOpcode .call with
      | false => rfl
      | true =>
        rw [Item.isOpcodeItem_of_opcode? (Item.opcode?_of_isOpenOpcode hcall)] at hfresh
        cases hfresh
  rw [hopen, openCalls, calls]
  refine List.filter_congr fun id hid => ?_
  obtain ⟨hfront, -⟩ := (mem_body hfound.sound hfound.placed.framed hf).1 hid
  have hlt := hfound.sound.ordered.lt_of_mem hfront.right_mem
  have hsame := Item.isOpcode_of_code (hextends.code id hlt) .call
  cases hcall : (found.graph.item id).isOpcode .call with
  | false => rw [Item.isOpenOpcode, hsame, hcall, Bool.and_false]
  | true =>
    have hkept := kept_of_notMem h hlt (hnew id (List.mem_filter.2 ⟨hid, hcall⟩))
    rw [Item.isOpenOpcode, hsame, hcall, hkept.call hcall, hfound.fresh id hcall]
    rfl

/-! ## Progress -/

/-- The calls of functions. -/
def callsOf (d : Decompilation) (funcs : List Nat) : List ItemId := funcs.flatMap d.calls

/-- How far decompilation has come: the functions of `done` have been decompiled, each with the line that opens
it, and nothing else has. -/
structure Progress (found : Decompilation) (done : List (Nat × ItemId)) (d : Decompilation) : Prop where
  advances : ∃ lines, (found.marking (found.callsOf (done.map Prod.fst))).Advances lines d ∧
    openings lines = done.map Prod.snd
  heads : ∀ entry ∈ done, ∃ f header, found.frames[entry.1]? = some f ∧ d.graph.Heads f header entry.2
  enters : ∀ func ∈ done.map Prod.fst, ∀ call ∈ found.calls func, ∃ callee?,
    found.Enters func (found.graph.item call) callee?

theorem progress_start (hfound : found.Surveyed) : found.Progress [] found :=
  ⟨⟨[], Advances.refl hfound.sound, rfl⟩, fun _ h => absurd h List.not_mem_nil,
    fun _ h => absurd h List.not_mem_nil⟩

theorem statement?_of_mem_callsOf {funcs : List Nat} {call : ItemId} (h : call ∈ found.callsOf funcs) :
    (found.graph.item call).statement? = none := by
  obtain ⟨func, -, hcall⟩ := List.mem_flatMap.1 h
  exact (place_of_mem_calls hcall).2

/-- Calls of different functions are different. -/
theorem notMem_callsOf (hfound : found.Surveyed) {funcs : List Nat} (hfuncs : ∀ func ∈ funcs, found.Reaches func)
    (hf : found.frames[func]? = some f) (hnew : func ∉ funcs) {call : ItemId} (hcall : call ∈ found.calls func) :
    call ∉ found.callsOf funcs := by
  intro hmem
  obtain ⟨func', hfunc', hcall'⟩ := List.mem_flatMap.1 hmem
  obtain ⟨f', hf'⟩ := (hfuncs func' hfunc').exists_frame
  have hsame := eq_of_mem_body hfound.sound hfound.placed.framed hf hf' (List.mem_filter.1 hcall).1
    (List.mem_filter.1 hcall').1
  exact hnew (hsame ▸ hfunc')

/-- There are no more calls than items. -/
theorem length_callsOf_le (hfound : found.Surveyed) {funcs : List Nat} (hnodup : funcs.Nodup)
    (hfuncs : ∀ func ∈ funcs, found.Reaches func) : (found.callsOf funcs).length ≤ found.graph.size := by
  have hsub {func : Nat} : (found.calls func).Sublist found.graph.order :=
    List.filter_sublist.trans (found.sublist_body func)
  rw [← hfound.sound.ordered.length_order]
  refine (List.subperm_of_subset (List.nodup_flatMap.2 ⟨fun func _ => hfound.sound.ordered.nodup.sublist hsub, ?_⟩)
    fun id hid => ?_).length_le
  · refine hnodup.imp_of_mem fun {func func'} hfunc hfunc' hne id hid hid' => hne ?_
    obtain ⟨f, hf⟩ := (hfuncs func hfunc).exists_frame
    obtain ⟨f', hf'⟩ := (hfuncs func' hfunc').exists_frame
    exact eq_of_mem_body hfound.sound hfound.placed.framed hf hf' (List.mem_filter.1 hid).1
      (List.mem_filter.1 hid').1
  · obtain ⟨func, -, hcall⟩ := List.mem_flatMap.1 hid
    exact hsub.subset hcall

namespace Progress

section

variable (h : found.Progress done d)

include h

theorem frames : d.frames = found.frames := by
  obtain ⟨lines, hlines, -⟩ := h.advances
  exact hlines.frames

theorem sound : d.graph.Sound := by
  obtain ⟨lines, hlines, -⟩ := h.advances
  exact hlines.sound

/-- The decompilation may advance without a line of a block. -/
theorem quiet (hadvances : d.Advances [] d') : found.Progress done d' := by
  obtain ⟨lines, hlines, hopenings⟩ := h.advances
  refine ⟨⟨lines ++ [], hlines.trans hadvances, ?_⟩, fun entry hentry => ?_, h.enters⟩
  · rwa [List.append_nil]
  · obtain ⟨f, header, hf, hheads⟩ := h.heads entry hentry
    exact ⟨f, header, hf, hheads.grows hlines.sound hadvances.grows⟩

theorem well (hfound : found.Surveyed) : d.Well := by
  obtain ⟨lines, hlines, -⟩ := h.advances
  have hwell : found.Well := ⟨hfound.sound, hfound.placed.framed.fits⟩
  exact (hwell.marking fun id hid => statement?_of_mem_callsOf hid).well.grow hlines

end

end Progress

/-! ## A turn -/

/-- What a fault leaves: unless it is one of the search for a function, all calls that have been replaced enter
something. -/
def Halts (found : Decompilation) (fault : DecompileFault) (d : Decompilation) : Prop :=
  (∃ name, fault = .unknownFunction name) ∨ ∀ call, (d.graph.item call).processed = true →
    (found.graph.item call).isOpcode .call = true →
    ∃ func callee?, found.Enters func (found.graph.item call) callee?

/-- Only calls that have been marked on purpose are marked. -/
theorem halts_of_marking (hfound : found.Surveyed) (h : (found.marking marked).Advances lines d)
    (henters : (∃ name, fault = .unknownFunction name) ∨
      ∀ call ∈ marked, ∃ func callee?, found.Enters func (found.graph.item call) callee?) :
    found.Halts fault d := by
  refine henters.imp_right fun henters call hmarked hcall => henters call ?_
  by_contra hnot
  have hlt := Graph.lt_size_of_isOpcodeItem (Item.isOpcodeItem_of_isOpcode hcall)
  rw [(kept_of_notMem h hlt hnot).call hcall, hfound.fresh call hcall] at hmarked
  cases hmarked

/-- What comes of a turn for the function `func`: it has been decompiled, too, and the result is what its calls
enter, or there is a fault. -/
inductive Turned (found : Decompilation) (done : List (Nat × ItemId)) (func : Nat) :
    EStateM.Result DecompileFault Decompilation (List Nat) → Prop where
  | done {opening : ItemId} {entries : List (ItemId × Option Nat)} {d' : Decompilation}
      (h : found.Progress (done ++ [(func, opening)]) d') (hcalls : entries.map Prod.fst = found.calls func)
      (henters : ∀ entry ∈ entries, found.Enters func (found.graph.item entry.1) entry.2) :
      Turned found done func (.ok (entries.filterMap Prod.snd) d')
  | failed {fault : DecompileFault} {d' : Decompilation} (h : found.Halts fault d') :
      Turned found done func (.error fault d')

namespace Progress

variable (h : found.Progress done d)

include h

/-- One more function is decompiled: its calls are marked, and a line that opens it is written. -/
theorem concat (hfound : found.Surveyed) (hf : found.frames[func]? = some f)
    (hdone : ∀ func ∈ done.map Prod.fst, found.Reaches func) (hnew : func ∉ done.map Prod.fst)
    {header opening : ItemId} (hadvances : (d.marking (found.calls func)).Advances lines d')
    (hopening : openings lines = [opening]) (hheads : d'.graph.Heads f header opening)
    (henters : ∀ call ∈ found.calls func, ∃ callee?, found.Enters func (found.graph.item call) callee?) :
    found.Progress (done ++ [(func, opening)]) d' := by
  obtain ⟨lines', hlines, hopenings⟩ := h.advances
  have hstatement : ∀ id ∈ found.calls func, (d.graph.item id).statement? = none := fun id hid =>
    (kept_of_notMem hlines (place_of_mem_calls hid).1
      (notMem_callsOf hfound hdone hf hnew hid)).statement?_eq_none (place_of_mem_calls hid).2
  refine ⟨⟨lines' ++ lines, ?_, ?_⟩, fun entry hentry => ?_, fun func' hfunc' call hcall => ?_⟩
  · rw [List.map_append, callsOf, List.flatMap_append, List.map_singleton, List.flatMap_singleton]
    exact hlines.markMore hadvances fun id hid => place_of_mem_calls hid
  · rw [openings_append, hopenings, hopening, List.map_append, List.map_singleton]
  · rcases List.mem_append.1 hentry with hentry | hentry
    · obtain ⟨f', header', hf', hheads'⟩ := h.heads entry hentry
      exact ⟨f', header', hf',
        (hheads'.markAll hstatement).grows (Graph.sound_markAll hlines.sound hstatement) hadvances.grows⟩
    · rw [List.mem_singleton.1 hentry]
      exact ⟨f, header, hf, hheads⟩
  · rw [List.map_append, List.map_singleton] at hfunc'
    rcases List.mem_append.1 hfunc' with hfunc' | hfunc'
    · exact h.enters func' hfunc' call hcall
    · rw [List.mem_singleton.1 hfunc'] at hcall ⊢
      exact henters call hcall

theorem turned (hfound : found.Surveyed) (hdone : ∀ func ∈ done.map Prod.fst, found.Reaches func)
    (hf : found.frames[func]? = some f) (hnew : func ∉ done.map Prod.fst) :
    found.Turned done func (Pass.decompileFunction func d) := by
  obtain ⟨lines, hlines, hopenings⟩ := h.advances
  have hnotMem {call : ItemId} (hcall : call ∈ found.calls func) := notMem_callsOf hfound hdone hf hnew hcall
  have hopen := openCalls_body hfound hlines hf fun _ => hnotMem
  -- What a call enters is what it enters when all functions are known.
  have hentered {call : ItemId} {callee? : Option Nat} (hcall : call ∈ found.calls func)
      (henters : d.Enters func (d.graph.item call) callee?) :
      found.Enters func (found.graph.item call) callee? :=
    henters.congr h.frames.symm
      (kept_of_notMem hlines (place_of_mem_calls hcall).1 (hnotMem hcall)).op.symm
  have hdecompiled := Pass.decompiled_decompileFunction (h.well hfound) (h.frames ▸ hf)
  generalize Pass.decompileFunction func d = result at *
  cases hdecompiled with
  | @failed front lines' fault d' hfront hadvances henters =>
    rw [hopen] at hfront
    refine .failed (halts_of_marking hfound
      (hlines.markMore hadvances fun id hid => place_of_mem_calls (hfront hid)) ?_)
    refine henters.imp_right fun henters call hcall => ?_
    rcases List.mem_append.1 hcall with hcall | hcall
    · obtain ⟨func', hfunc', hcall'⟩ := List.mem_flatMap.1 hcall
      exact ⟨func', h.enters func' hfunc' call hcall'⟩
    · exact ⟨func, (henters call hcall).imp fun _ => hentered (hfront hcall)⟩
  | @done entries lines' header opening d' hentries henters hadvances hopening hheads =>
    rw [hopen] at hentries hadvances
    have henters' : ∀ entry ∈ entries, found.Enters func (found.graph.item entry.1) entry.2 :=
      fun entry hentry => hentered (hentries ▸ List.mem_map_of_mem hentry) (henters entry hentry)
    refine .done (h.concat hfound hf hdone hnew hadvances hopening hheads fun call hcall => ?_) hentries henters'
    rw [← hentries] at hcall
    obtain ⟨entry, hentry, rfl⟩ := List.mem_map.1 hcall
    exact ⟨entry.2, henters' entry hentry⟩

end Progress

/-! ## All turns -/

/-- What comes of the queue: all functions that are reached have been decompiled, or there is a fault. -/
inductive Worked (found : Decompilation) : EStateM.Result DecompileFault Decompilation (List UInt16) → Prop where
  | done {done : List (Nat × ItemId)} {reached : List UInt16} {d' : Decompilation}
      (hsearched : found.Searched (done.map Prod.fst) []) (h : found.Progress done d') :
      Worked found (.ok reached d')
  | failed {fault : DecompileFault} {d' : Decompilation} (h : found.Halts fault d') :
      Worked found (.error fault d')

/-- The functions that have been decompiled are known by their starts. -/
def Visited (found : Decompilation) (done : List Nat) (visited : List UInt16) : Prop :=
  ∀ func f, found.frames[func]? = some f → (f.start ∈ visited ↔ func ∈ done)

theorem Visited.cons (hfound : found.Surveyed) {done : List Nat} {visited : List UInt16}
    (h : found.Visited done visited) (hf : found.frames[func]? = some f) :
    found.Visited (done ++ [func]) (f.start :: visited) := by
  intro func' f' hf'
  rw [List.mem_cons, h func' f' hf', List.mem_append, List.mem_singleton, or_comm]
  refine or_congr_right ⟨fun hstart => ?_, ?_⟩
  · exact hfound.placed.framed.eq_of_entersAt hf' hf f'.entersAt_start (hstart ▸ f.entersAt_start)
  · rintro rfl
    rw [Option.some.inj (hf'.symm.trans hf)]

/-- The functions that a function calls join the queue behind it, except for those that have been visited. -/
theorem Searched.enqueue {done : List Nat} {visited : List UInt16} {entries : List (ItemId × Option Nat)}
    (hsearched : found.Searched done (func :: queue)) (hfound : found.Surveyed) (hshown : ∀ id, found.Shown id)
    (hf : found.frames[func]? = some f) (hnew : func ∉ done) (hvisited : found.Visited (done ++ [func]) visited)
    (hcalls : entries.map Prod.fst = found.calls func)
    (henters : ∀ entry ∈ entries, found.Enters func (found.graph.item entry.1) entry.2)
    (hframes : d.frames = found.frames) :
    found.Searched (done ++ [func]) (queue ++ (entries.filterMap Prod.snd).filter fun callee =>
      !visited.contains (Pass.functionStart d callee)) := by
  have hcallees : ∀ callee ∈ entries.filterMap Prod.snd, found.Calls func callee := fun callee =>
    hfound.calls_of_mem hf hcalls henters
  refine hsearched.visit hnew hcallees (fun callee => hfound.mem_of_calls hcalls henters hshown)
    (List.filter_subset_self _) fun callee hcallee => ?_
  have hfunc := hsearched.reaches func (List.mem_append_right _ List.mem_cons_self)
  obtain ⟨f', hf'⟩ := (hfunc.tail (hcallees callee hcallee)).exists_frame
  rw [List.mem_filter, functionStart_of_getElem? (hframes ▸ hf')]
  by_cases hold : f'.start ∈ visited
  · exact Or.inl ((hvisited callee f' hf').1 hold)
  · exact Or.inr ⟨hcallee, by simpa using hold⟩

/-- No more functions join the queue than calls are replaced. -/
theorem length_enqueued_le {entries : List (ItemId × Option Nat)} {calls : List ItemId}
    (hcalls : entries.map Prod.fst = calls) (fresh : Nat → Bool) :
    ((entries.filterMap Prod.snd).filter fresh).length ≤ calls.length := by
  rw [← hcalls, List.length_map]
  exact (List.length_filter_le fresh _).trans (List.length_filterMap_le Prod.snd entries)

/-- The turns left suffice for the queue, and one turn for each call that has not been replaced. -/
theorem worked_decompileQueue (hfound : found.Surveyed) (hshown : ∀ id, found.Shown id) (fuel : Nat)
    {visited : List UInt16} (hsearched : found.Searched (done.map Prod.fst) queue)
    (h : found.Progress done d) (hvisited : found.Visited (done.map Prod.fst) visited)
    (hfuel : queue.length + found.graph.size ≤ fuel + (found.callsOf (done.map Prod.fst)).length) :
    found.Worked (Pass.decompileQueue fuel queue visited d) := by
  induction fuel generalizing done queue visited d with
  | zero =>
    have hle := length_callsOf_le hfound hsearched.nodup fun func hfunc =>
      hsearched.reaches func (List.mem_append_left _ hfunc)
    obtain rfl : queue = [] := List.length_eq_zero_iff.1 (by omega)
    exact .done hsearched h
  | succ fuel ih =>
    cases queue with
    | nil => exact .done hsearched h
    | cons func queue =>
      have hfunc := hsearched.reaches func (List.mem_append_right _ List.mem_cons_self)
      obtain ⟨f, hf⟩ := hfunc.exists_frame
      have hstart : Pass.functionStart d func = f.start := functionStart_of_getElem? (h.frames ▸ hf)
      rw [List.length_cons] at hfuel
      rw [Pass.decompileQueue, bind_of_ok (get_apply d), hstart]
      dsimp only
      split
      · rename_i hold
        have hdone := (hvisited func f hf).1 (List.contains_iff_mem.1 hold)
        exact ih (hsearched.skip hdone) h hvisited (by omega)
      · rename_i hold
        have hnew : func ∉ done.map Prod.fst := fun hdone =>
          hold (List.contains_iff_mem.2 ((hvisited func f hf).2 hdone))
        have hturned := h.turned hfound
          (fun func hfunc => hsearched.reaches func (List.mem_append_left _ hfunc)) hf hnew
        cases hresult : Pass.decompileFunction func d with
        | error fault d' =>
          rw [hresult] at hturned
          rw [bind_of_error hresult]
          cases hturned with
          | failed h => exact .failed h
        | ok callees d' =>
          rw [hresult] at hturned
          rw [bind_of_ok hresult, bind_of_ok (get_apply d')]
          cases hturned with
          | @done opening entries _ h' hcalls henters =>
            have hvisited' := hvisited.cons hfound hf
            have henqueued := hsearched.enqueue hfound hshown hf hnew hvisited' hcalls henters h'.frames
            have hdone : (done ++ [(func, opening)]).map Prod.fst = done.map Prod.fst ++ [func] := by simp
            rw [← hdone] at hvisited' henqueued
            refine ih henqueued h' hvisited' ?_
            -- One turn is spent, and the queue grows by no more than the calls that this turn replaces.
            have hfresh := length_enqueued_le hcalls fun callee =>
              !(f.start :: visited).contains (Pass.functionStart d' callee)
            rw [List.length_append, hdone, callsOf, List.flatMap_append, List.flatMap_singleton, List.length_append]
            unfold callsOf at hfuel
            omega

/-! ## Decompilation -/

/-- What comes of the decompilation of an image: all functions that are reached have been decompiled, or there is a
fault. -/
inductive Outcome (found : Decompilation) : EStateM.Result DecompileFault Decompilation Unit → Prop where
  | done {done : List (Nat × ItemId)} {d : Decompilation} (hsearched : found.Searched (done.map Prod.fst) [])
      (h : found.Progress done d) : Outcome found (.ok () d)
  | failed {fault : DecompileFault} {d : Decompilation} (h : found.Halts fault d) :
      Outcome found (.error fault d)

/-- When all functions are known, what is reached from the start is decompiled. -/
theorem outcome_decompileQueue (hfound : found.Surveyed) (hshown : ∀ id, found.Shown id) {start : Nat}
    (hstart : found.functionIndex? startFunction = some start) :
    found.Outcome ((Pass.decompileQueue (found.graph.size + 1) [start] [] >>= fun reached =>
      modify fun d => { d.dropAllUnreached reached with stage := .decompiled }) found) := by
  have hvisited : found.Visited [] [] := fun _ _ _ => iff_of_false List.not_mem_nil List.not_mem_nil
  have hsearched : found.Searched (([] : List (Nat × ItemId)).map Prod.fst) [start] := searched_start hstart
  have hworked := worked_decompileQueue hfound hshown (found.graph.size + 1) hsearched
    (progress_start hfound) hvisited (by rw [List.length_singleton]; omega)
  cases hresult : Pass.decompileQueue (found.graph.size + 1) [start] [] found with
  | error fault d' =>
    rw [hresult] at hworked
    rw [bind_of_error hresult]
    cases hworked with
    | failed h => exact .failed h
  | ok reached d' =>
    rw [hresult] at hworked
    rw [bind_of_ok hresult]
    cases hworked with
    | done hsearched h =>
      have hdropped := advances_dropAllUnreached h.sound reached
      exact .done hsearched (h.quiet ⟨hdropped.grows, hdropped.frames⟩)

/-- When decompilation ends without a fault, exactly the functions that are reached have been decompiled. -/
theorem outcome_decompile {image : Image} {strings : List String} {options : NamingOptions}
    (hnames : ∀ pos name, options.functionNames.get? pos = some name → Leading name) :
    (survey image strings options).Outcome (Pass.decompile (.ofImage image strings options)) := by
  have hstage : (ofImage image strings options).stage = .fresh := rfl
  unfold Pass.decompile
  rw [bind_of_ok (get_apply _)]
  simp only [hstage, reduceCtorEq, if_false, if_true]
  cases hreferences : Pass.collectReferences (ofImage image strings options) with
  | error fault d =>
    rw [bind_of_error hreferences]
    refine .failed (Or.inr fun call hmarked _ => ?_)
    have hfresh := processed_collectReferences image strings options call
    rw [hreferences, final_error, hmarked] at hfresh
    cases hfresh
  | ok _ d =>
    have hsurvey : d.discoverFunctions.relabelCalls = survey image strings options := by
      rw [survey, hreferences, final_ok]
    rw [bind_of_ok hreferences, bind_of_ok (modify_apply _ d), bind_of_ok (get_apply _), hsurvey]
    cases hstart : (survey image strings options).functionIndex? startFunction with
    | none => exact .failed (Or.inl ⟨startFunction, rfl⟩)
    | some start => exact outcome_decompileQueue (surveyed_survey image strings options) (shown_survey hnames) hstart

end Decompilation

end Parley
