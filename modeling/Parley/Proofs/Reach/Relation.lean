import Parley.Proofs.Reach.Survey
import Mathlib.Logic.Relation
set_option autoImplicit false

/-!
# Which functions call which

The functions of a conversation stand one behind the other, so a position belongs to one function at most, and a
call enters one at most.
-/

namespace Parley

/-! ## Functions one behind the other -/

/-- A function is entered before its epilogue. -/
theorem Frame.Fits.lt_stop {f : Frame} {g : Graph} (h : f.Fits g) {pos : UInt16}
    (henters : f.entersAt pos = true) : f.start ≤ pos ∧ pos < f.stop := by
  rw [Frame.entersAt, Bool.or_eq_true, decide_eq_true_eq, decide_eq_true_eq] at henters
  rcases henters with rfl | rfl
  · exact ⟨UInt16.le_refl _, UInt16.lt_of_le_of_lt h.start_le h.entry_lt⟩
  · exact ⟨h.start_le, h.entry_lt⟩

theorem Frame.entersAt_start (f : Frame) : f.entersAt f.start = true := by simp [Frame.entersAt]

namespace Graph.Framed

variable {g : Graph} {frames : List Frame} {func func' : Nat} {f f' : Frame} {pos : UInt16}

theorem apart_of_ne (h : g.Framed frames) (hf : frames[func]? = some f) (hf' : frames[func']? = some f')
    (hne : func ≠ func') : f.stop < f'.start ∨ f'.stop < f.start := by
  obtain ⟨hlt, rfl⟩ := List.getElem?_eq_some_iff.1 hf
  obtain ⟨hlt', rfl⟩ := List.getElem?_eq_some_iff.1 hf'
  have hapart := List.pairwise_iff_getElem.1 h.apart
  rcases Nat.lt_or_gt_of_ne hne with hless | hless
  · exact Or.inl (hapart func func' hlt hlt' hless)
  · exact Or.inr (hapart func' func hlt' hlt hless)

/-- No position lies in two functions. -/
theorem unique (h : g.Framed frames) (hf : frames[func]? = some f) (hf' : frames[func']? = some f')
    (hpos : f.start ≤ pos ∧ pos ≤ f.stop) (hpos' : f'.start ≤ pos ∧ pos ≤ f'.stop) : func = func' := by
  by_contra hne
  rcases h.apart_of_ne hf hf' hne with hapart | hapart
  · exact UInt16.lt_irrefl _ (UInt16.lt_of_lt_of_le hapart (UInt16.le_trans hpos'.1 hpos.2))
  · exact UInt16.lt_irrefl _ (UInt16.lt_of_lt_of_le hapart (UInt16.le_trans hpos.1 hpos'.2))

theorem eq_of_entersAt (h : g.Framed frames) (hf : frames[func]? = some f) (hf' : frames[func']? = some f')
    (henters : f.entersAt pos = true) (henters' : f'.entersAt pos = true) : func = func' := by
  obtain ⟨hle, hlt⟩ := (h.fits f (List.mem_of_getElem? hf)).lt_stop henters
  obtain ⟨hle', hlt'⟩ := (h.fits f' (List.mem_of_getElem? hf')).lt_stop henters'
  exact h.unique hf hf' ⟨hle, UInt16.le_of_lt hlt⟩ ⟨hle', UInt16.le_of_lt hlt'⟩

end Graph.Framed

namespace Decompilation

variable {d : Decompilation} {func func' : Nat} {f f' : Frame} {pos : UInt16} {id call : ItemId}

/-! ## Bodies -/

theorem body_of_getElem? (hf : d.frames[func]? = some f) :
    d.body func = d.graph.between f.startItem f.endItem := by
  obtain ⟨info, hinfo, rfl⟩ := Option.map_eq_some_iff.1 ((d.getElem?_frames func).symm.trans hf)
  unfold body bounds
  rw [hinfo]
  rfl

theorem functionStart_of_getElem? (hf : d.frames[func]? = some f) : Pass.functionStart d func = f.start := by
  obtain ⟨info, hinfo, rfl⟩ := Option.map_eq_some_iff.1 ((d.getElem?_frames func).symm.trans hf)
  unfold Pass.functionStart
  rw [hinfo]
  rfl

/-- What stands in a function stands between its boundaries. -/
theorem mem_body (hd : d.graph.Sound) (hframed : d.graph.Framed d.frames) (hf : d.frames[func]? = some f) :
    id ∈ d.body func ↔ Precedes d.graph.order f.startItem id ∧ Precedes d.graph.order id f.endItem := by
  rw [body_of_getElem? hf]
  exact hd.ordered.mem_between (hframed.fits f (List.mem_of_getElem? hf)).ordered

/-- No item stands in two functions. -/
theorem eq_of_mem_body (hd : d.graph.Sound) (hframed : d.graph.Framed d.frames)
    (hf : d.frames[func]? = some f) (hf' : d.frames[func']? = some f') (hid : id ∈ d.body func)
    (hid' : id ∈ d.body func') : func = func' := by
  have hpos {func : Nat} {f : Frame} (hf : d.frames[func]? = some f) (hid : id ∈ d.body func) :
      f.start ≤ (d.graph.item id).pos ∧ (d.graph.item id).pos ≤ f.stop := by
    have hfits := hframed.fits f (List.mem_of_getElem? hf)
    obtain ⟨hfront, hback⟩ := (mem_body hd hframed hf).1 hid
    rw [← hfits.posFront, ← hfits.posBack]
    exact ⟨hd.ordered.pos_le hfront, hd.ordered.pos_le hback⟩
  exact hframed.unique hf hf' (hpos hf hid) (hpos hf' hid')

/-- The calls in a function. -/
def calls (d : Decompilation) (func : Nat) : List ItemId :=
  (d.body func).filter fun id => (d.graph.item id).isOpcode .call

theorem place_of_mem_calls (h : call ∈ d.calls func) :
    call < d.graph.size ∧ (d.graph.item call).statement? = none := by
  have hitem := Item.isOpcodeItem_of_isOpcode (List.mem_filter.1 h).2
  exact ⟨Graph.lt_size_of_isOpcodeItem hitem, Item.statement?_of_isOpcodeItem hitem⟩

theorem functionAt?_eq_some_iff (hframed : d.graph.Framed d.frames) :
    d.functionAt? pos = some func ↔ ∃ f, d.frames[func]? = some f ∧ f.entersAt pos = true := by
  rw [functionAt?_eq]
  constructor
  · intro h
    obtain ⟨hlt, henters, -⟩ := List.findIdx?_eq_some_iff_getElem.1 h
    exact ⟨_, List.getElem?_eq_getElem hlt, henters⟩
  · rintro ⟨f, hf, henters⟩
    cases hfind : d.frames.findIdx? (·.entersAt pos) with
    | none =>
      rw [List.findIdx?_eq_none_iff.1 hfind f (List.mem_of_getElem? hf)] at henters
      cases henters
    | some func' =>
      obtain ⟨hlt, henters', -⟩ := List.findIdx?_eq_some_iff_getElem.1 hfind
      exact congrArg some (hframed.eq_of_entersAt (List.getElem?_eq_getElem hlt) hf henters' henters)

/-! ## The relation -/

/-- A call in the function `func`, to somewhere, enters the function `callee`. -/
def Calls (d : Decompilation) (func callee : Nat) : Prop :=
  ∃ call ∈ d.body func, ∃ target, (d.graph.item call).Calls target ∧ target ≠ nowhere ∧
    ∃ f ∈ d.frames[callee]?, f.entersAt target = true

/-- The function `func` is reached by calls from the first function that is called the start. -/
def Reaches (d : Decompilation) (func : Nat) : Prop :=
  ∃ start, d.functionIndex? startFunction = some start ∧ Relation.ReflTransGen d.Calls start func

theorem functionIndex?_eq (d : Decompilation) (name : String) :
    d.functionIndex? name = d.frames.findIdx? (·.name = name) := by
  rw [frames, List.findIdx?_map, ← List.findIdx?_toArray, functionIndex?]
  rfl

/-- Only functions that there are are reached. -/
theorem Reaches.exists_frame (h : d.Reaches func) : ∃ f, d.frames[func]? = some f := by
  obtain ⟨start, hstart, hpath⟩ := h
  rcases hpath.cases_tail with rfl | ⟨caller, -, call, -, target, -, -, f, hf, -⟩
  · rw [functionIndex?_eq] at hstart
    obtain ⟨hlt, -⟩ := List.findIdx?_eq_some_iff_getElem.1 hstart
    exact ⟨_, List.getElem?_eq_getElem hlt⟩
  · exact ⟨f, hf⟩

theorem Reaches.tail {callee : Nat} (h : d.Reaches func) (hcalls : d.Calls func callee) :
    d.Reaches callee := by
  obtain ⟨start, hstart, hpath⟩ := h
  exact ⟨start, hstart, hpath.tail hcalls⟩

namespace Surveyed

variable (hd : d.Surveyed)

include hd

/-- A call in a function leads to a position. -/
theorem exists_target (hf : d.frames[func]? = some f) (hcall : call ∈ d.calls func) :
    ∃ target, (d.graph.item call).Calls target := by
  obtain ⟨hbody, hopcode⟩ := List.mem_filter.1 hcall
  obtain ⟨-, hback⟩ := (mem_body hd.sound hd.placed.framed hf).1 hbody
  obtain ⟨behind, hbehind, hitem⟩ := (hd.placed.framed.fits f (List.mem_of_getElem? hf)).behind
  exact hd.operands call behind (hback.trans hd.sound.ordered.nodup hbehind) hopcode hitem

/-- What a call that leads somewhere enters is the function there; it is not noted if it is the caller
itself. -/
theorem entered (hshown : d.Shown call) {callee? : Option Nat} {target : UInt16}
    (h : d.Enters func (d.graph.item call) callee?) (hcall : (d.graph.item call).Calls target)
    (hwhere : target ≠ nowhere) :
    ∃ callee, d.functionAt? target = some callee ∧ (callee? = some callee ∨ callee = func) := by
  cases h with
  | @other callee _ h =>
    rw [hcall.operandOrZero] at h
    exact ⟨callee, h, Or.inl rfl⟩
  | @own f hf henters =>
    rw [hcall.operandOrZero] at henters
    exact ⟨func, (functionAt?_eq_some_iff hd.placed.framed).2 ⟨f, hf, henters⟩, Or.inr rfl⟩
  | invalid h =>
    rcases h with h | h
    · exact absurd (hcall.operandOrZero.symm.trans h) hwhere
    · obtain ⟨op, hop, hoperand⟩ := Option.bind_eq_some_iff.1 hcall.2
      rw [hop, Option.bind_some] at h
      cases hlabel : op.targetLabel with
      | none =>
        rw [hlabel] at h
        cases h
      | some label =>
        have hleading := hshown hcall.1 op hop target hoperand hwhere label hlabel
        rw [hlabel, Option.any_some, hleading] at h
        cases h

section Callees

variable {entries : List (ItemId × Option Nat)} (hf : d.frames[func]? = some f)
  (hcalls : entries.map Prod.fst = d.calls func)
  (henters : ∀ entry ∈ entries, d.Enters func (d.graph.item entry.1) entry.2)

include hf hcalls henters

/-- What the calls of a function enter is called. -/
theorem calls_of_mem {callee : Nat} (hcallee : callee ∈ entries.filterMap Prod.snd) : d.Calls func callee := by
  obtain ⟨⟨call, callee?⟩, hentry, hsome⟩ := List.mem_filterMap.1 hcallee
  have hmem : call ∈ d.calls func := hcalls ▸ List.mem_map_of_mem hentry
  obtain ⟨target, htarget⟩ := hd.exists_target hf hmem
  have henters := henters (call, callee?) hentry
  dsimp only at hsome henters
  rw [hsome] at henters
  cases henters with
  | other hwhere h =>
    rw [htarget.operandOrZero] at hwhere h
    obtain ⟨f', hf', henters⟩ := (functionAt?_eq_some_iff hd.placed.framed).1 h
    exact ⟨call, (List.mem_filter.1 hmem).1, target, htarget, hwhere, f', hf', henters⟩

omit hf in
/-- All that is called is entered by the calls of a function, or the function itself. -/
theorem mem_of_calls (hshown : ∀ id, d.Shown id) {callee : Nat} (h : d.Calls func callee) :
    callee ∈ entries.filterMap Prod.snd ∨ callee = func := by
  obtain ⟨call, hbody, target, htarget, hwhere, f, hf, hentersAt⟩ := h
  have hmem : call ∈ entries.map Prod.fst := hcalls ▸ List.mem_filter.2 ⟨hbody, htarget.1⟩
  obtain ⟨entry, hentry, rfl⟩ := List.mem_map.1 hmem
  obtain ⟨callee', hat, hentered⟩ := hd.entered (hshown entry.1) (henters entry hentry) htarget hwhere
  have hsame : callee' = callee := Option.some.inj
    (hat.symm.trans ((functionAt?_eq_some_iff hd.placed.framed).2 ⟨f, hf, hentersAt⟩))
  subst hsame
  exact hentered.imp_left fun hsome => List.mem_filterMap.2 ⟨entry, hentry, hsome⟩

end Callees

end Surveyed

/-! ## The search -/

/-- How far a search has come: the functions of `done` have been visited and those of `queue` are left.  All of
them are reached, and nothing else is called by those that have been visited. -/
structure Searched (d : Decompilation) (done queue : List Nat) : Prop where
  nodup : done.Nodup
  start : ∀ start, d.functionIndex? startFunction = some start → start ∈ done ++ queue
  reaches : ∀ func ∈ done ++ queue, d.Reaches func
  closed : ∀ func ∈ done, ∀ callee, d.Calls func callee → callee ∈ done ++ queue

theorem searched_start {start : Nat} (hstart : d.functionIndex? startFunction = some start) :
    d.Searched [] [start] := by
  refine ⟨List.nodup_nil, fun other hother => ?_, fun func hfunc => ?_,
    fun _ h => absurd h List.not_mem_nil⟩
  · rw [hstart, Option.some.injEq] at hother
    exact List.mem_singleton.2 hother.symm
  · exact ⟨start, hstart, List.mem_singleton.1 hfunc ▸ .refl⟩

namespace Searched

variable {done queue callees fresh : List Nat}

/-- A function that has been visited is passed over. -/
theorem skip (h : d.Searched done (func :: queue)) (hdone : func ∈ done) : d.Searched done queue := by
  have hmem {other : Nat} : other ∈ done ++ func :: queue ↔ other ∈ done ++ queue := by
    simp only [List.mem_append, List.mem_cons]
    refine or_congr_right' fun hother => or_iff_right ?_
    rintro rfl
    exact hother hdone
  exact ⟨h.nodup, fun start hstart => hmem.1 (h.start start hstart), fun other hother =>
    h.reaches other (hmem.2 hother), fun other hother callee hcalls =>
    hmem.1 (h.closed other hother callee hcalls)⟩

/-- A function is visited.  What it calls must go into the queue, unless it has been visited. -/
theorem visit (h : d.Searched done (func :: queue)) (hnew : func ∉ done)
    (hcallees : ∀ callee ∈ callees, d.Calls func callee)
    (hall : ∀ callee, d.Calls func callee → callee ∈ callees ∨ callee = func) (hfresh : fresh ⊆ callees)
    (hleft : ∀ callee ∈ callees, callee ∈ done ++ [func] ∨ callee ∈ fresh) :
    d.Searched (done ++ [func]) (queue ++ fresh) := by
  have hfunc := h.reaches func (List.mem_append_right _ List.mem_cons_self)
  have hmem {other : Nat} : other ∈ (done ++ [func]) ++ (queue ++ fresh) ↔
      other ∈ done ++ func :: queue ∨ other ∈ fresh := by
    simp [or_assoc]
  refine ⟨List.nodup_append.2 ⟨h.nodup, List.nodup_singleton func, ?_⟩, fun start hstart =>
    hmem.2 (Or.inl (h.start start hstart)), fun other hother => ?_, fun other hother callee hcalls => ?_⟩
  · rintro other hother _ hsingle rfl
    exact hnew (List.mem_singleton.1 hsingle ▸ hother)
  · exact (hmem.1 hother).elim (h.reaches other) fun hother => hfunc.tail (hcallees other (hfresh hother))
  · rcases List.mem_append.1 hother with hother | hother
    · exact hmem.2 (Or.inl (h.closed other hother callee hcalls))
    · rw [List.mem_singleton.1 hother] at hcalls
      rcases hall callee hcalls with hcallee | rfl
      · exact (hleft callee hcallee).elim (List.mem_append_left _)
          fun hcallee => hmem.2 (Or.inr hcallee)
      · exact hmem.2 (Or.inl (List.mem_append_right _ List.mem_cons_self))

/-- When nothing is left all that is reached has been visited. -/
theorem mem_iff (h : d.Searched done []) : func ∈ done ↔ d.Reaches func := by
  have hdone {other : Nat} (hother : other ∈ done ++ []) : other ∈ done := by rwa [List.append_nil] at hother
  constructor
  · exact fun hfunc => h.reaches func (List.mem_append_left _ hfunc)
  · rintro ⟨start, hstart, hpath⟩
    induction hpath with
    | refl => exact hdone (h.start start hstart)
    | tail _ hcalls ih => exact hdone (h.closed _ ih _ hcalls)

end Searched

end Decompilation

end Parley
