import Parley.Decompile.Analysis
import Parley.Proofs.Decompile.Advance
import Parley.Proofs.Decompile.CrossReference
import Mathlib.Data.List.TakeWhile
set_option autoImplicit false

/-!
# The analysis of instructions writes no line of a block

All items that it replaces and marks are instructions.
-/

namespace Parley

open Fallible

variable {d : Decompilation} {site call stop : ItemId}

namespace Pass

/-! ## Pushes and stores -/

theorem quiet_consumeLoad (id : ItemId) : Quiet (consumeLoad id) d := by
  refine quiet_get_bind ?_
  split
  · exact quiet_pure false
  · rename_i next hnext
    have hopen := (Option.filter_eq_some_iff.1 hnext).2
    exact (quiet_markProcessed (Graph.site_of_isOpenOpcode hopen (by decide))).bind
      fun _ _ _ _ => quiet_pure true

theorem quiet_addElement (func : Nat) (h : d.graph.Site site)
    (hbegins : d.graph.Begins site elementPattern) : Quiet (addElement func site) d := by
  intro hd
  refine (quiet_get_bind ?_ : Quiet (addElement func site) d) hd
  refine (quiet_onVariables func _).bind fun _ d₁ _ h₁ => ?_
  refine (quiet_addExpression (h₁.site h) _).bind fun _ d₂ _ h₂ => ?_
  exact quiet_markOpcodes ((h₁.trans h₂).begins hd h.lt_size hbegins) (by decide)

theorem quiet_addVariable (func : Nat) (h : d.graph.Site site) : Quiet (addVariable func site) d := by
  refine quiet_get_bind ?_
  refine (quiet_consumeLoad site).bind fun loaded d₁ _ h₁ => ?_
  split
  · refine (quiet_onVariables func _).bind fun _ d₂ _ h₂ => ?_
    exact (quiet_addExpression (h₂.site (h₁.site h)) _).bind fun _ _ _ _ => quiet_pure _
  · refine (quiet_onVariables func _).bind fun _ d₂ _ h₂ => ?_
    exact (quiet_addExpression (h₂.site (h₁.site h)) _).bind fun _ _ _ _ => quiet_pure _

theorem quiet_addImmediate (h : d.graph.Site site) : Quiet (addImmediate site) d := by
  refine quiet_get_bind ?_
  refine (quiet_consumeLoad site).bind fun loaded d₁ _ h₁ => ?_
  exact (quiet_addExpression (h₁.site h) _).bind fun _ _ _ _ => quiet_pure _

theorem quiet_addStore (h : d.graph.Site site) : Quiet (addStore site) d := by
  refine quiet_get_bind ?_
  dsimp only
  split
  · rename_i swap hswap
    have hopen := (Option.filter_eq_some_iff.1 hswap).2
    refine (quiet_markProcessed (Graph.site_of_isOpenOpcode hopen (by decide))).bind fun _ d₁ _ h₁ => ?_
    exact (quiet_addOperation (h₁.site h) _).bind fun _ _ _ _ => quiet_pure _
  · exact (quiet_addOperation h _).bind fun _ _ _ _ => quiet_pure _

/-! ## Calls -/

theorem quiet_importedName (pos id : UInt16) : Quiet (importedName pos id) d := by
  rw [Quiet, importedName_apply]
  split <;> exact Decompilation.Advances.refl

theorem quiet_consumeCleanup : Quiet (consumeCleanup call stop) d := by
  refine quiet_get_bind ?_
  refine (quiet_markAll fun id hid => ?_).bind fun _ _ _ _ => quiet_pure _
  rcases List.mem_append.1 hid with hid | hid
  · have hopen := List.mem_takeWhile_imp hid
    exact Graph.site_of_isOpenOpcode hopen (by decide)
  · have hpushed := Option.mem_toList.1 hid
    exact Graph.site_of_isOpenOpcode (Option.filter_eq_some_iff.1 hpushed).2 (by decide)

theorem quiet_addIntrinsicCall (h : d.graph.Site call) : Quiet (addIntrinsicCall call stop) d := by
  refine quiet_get_bind ?_
  refine (quiet_importedName _ _).bind fun name d₁ _ h₁ => ?_
  refine (quiet_markProcessed (h₁.site h)).bind fun _ d₂ _ h₂ => ?_
  refine quiet_consumeCleanup.bind fun cleanup d₃ _ h₃ => ?_
  have hlater := (h₁.trans h₂).trans h₃
  refine (quiet_addOperation ?_ _).bind fun _ _ _ _ => quiet_pure _
  cases hcount : (d.graph.prev? call).filter fun prev => (d.graph.item prev).isOpenOpcode .pushi with
  | none => exact hlater.site h
  | some count =>
    exact hlater.site (Graph.site_of_isOpenOpcode (Option.filter_eq_some_iff.1 hcount).2 (by decide))

theorem quiet_noteCaller (func callee : Nat) : Quiet (noteCaller func callee) d := by
  intro hd
  rw [noteCaller, modify_apply, final_ok]
  split
  · exact ⟨Graph.Grows.refl hd, frames_onFunction d callee fun _ => rfl⟩
  · exact Decompilation.Advances.refl hd

end Pass

/-! ### What calls enter -/

/-- What a call in the function `func` enters: another function, or none if it enters the function itself or
leads nowhere. -/
inductive Decompilation.Enters (d : Decompilation) (func : Nat) (call : Item) : Option Nat → Prop where
  | other {callee : Nat} (hwhere : call.operandOrZero ≠ nowhere)
      (h : d.functionAt? call.operandOrZero = some callee) : Enters d func call (some callee)
  | own {f : Frame} (hfunc : d.frames[func]? = some f) (h : f.entersAt call.operandOrZero = true) :
      Enters d func call none
  | invalid (h : call.operandOrZero = nowhere ∨
      (call.opcodeItem?.bind (·.targetLabel)).any (beginsWith "invalid_") = true) : Enters d func call none

theorem Decompilation.Enters.congr {d d' : Decompilation} {func : Nat} {item item' : Item}
    {callee? : Option Nat} (h : d.Enters func item callee?) (hframes : d'.frames = d.frames)
    (hop : item'.opcodeItem? = item.opcodeItem?) : d'.Enters func item' callee? := by
  have hoperand : item'.operandOrZero = item.operandOrZero := by
    rw [Item.operandOrZero, hop, Item.operandOrZero]
  cases h with
  | other hwhere h =>
    refine .other (hoperand ▸ hwhere) ?_
    rw [hoperand, functionAt?_eq, hframes, ← functionAt?_eq, h]
  | own hfunc h => exact .own (hframes ▸ hfunc) (hoperand ▸ h)
  | invalid h => exact .invalid (by rwa [hoperand, hop])

namespace Pass

/-- Where a call enters something is found out, unless there is no function. -/
theorem enteredFunction_spec (func : Nat) (call : Item) :
    (∃ callee?, d.Enters func call callee? ∧ enteredFunction func call.operandOrZero
      (call.opcodeItem?.bind (·.targetLabel)) d = .ok callee? d) ∨
    ∃ name, enteredFunction func call.operandOrZero
      (call.opcodeItem?.bind (·.targetLabel)) d = .error (.unknownFunction name) d := by
  have hframe := d.getElem?_frames func
  rw [enteredFunction, bind_of_ok (get_apply d)]
  cases hfunc : d.functions[func]? <;> rw [hfunc] at hframe <;> dsimp only <;> split <;> rename_i hnone
  case none.isTrue =>
    exact Or.inl ⟨none, .invalid (by simpa only [Bool.false_or, Bool.or_eq_true, decide_eq_true_eq] using hnone),
      rfl⟩
  case some.isTrue info =>
    rw [Bool.or_eq_true] at hnone
    rcases hnone with hown | hinvalid
    · rw [Bool.or_eq_true, decide_eq_true_eq, decide_eq_true_eq] at hown
      have hown : info.frame.entersAt call.operandOrZero = true := by
        rw [Frame.entersAt, Bool.or_eq_true, decide_eq_true_eq, decide_eq_true_eq]
        exact hown.imp Eq.symm Eq.symm
      exact Or.inl ⟨none, .own hframe hown, rfl⟩
    · exact Or.inl ⟨none, .invalid (by simpa only [Bool.or_eq_true, decide_eq_true_eq] using hinvalid), rfl⟩
  all_goals
    have hwhere : call.operandOrZero ≠ nowhere := fun hsame => hnone (by rw [hsame]; simp)
    cases hcallee : d.functionAt? call.operandOrZero with
    | none => exact Or.inr ⟨_, rfl⟩
    | some callee => exact Or.inl ⟨some callee, .other hwhere hcallee, rfl⟩

/-- Where a call is replaced it is marked, and the result says what it enters. -/
theorem addLocalCall_spec (hd : d.graph.Sound) (func : Nat) (stop : ItemId)
    (hcall : (d.graph.item call).isOpcode .call = true) :
    (d.marking [call]).Advances [] (final (addLocalCall func call stop d)) ∧
      ((∃ callee? d', addLocalCall func call stop d = .ok callee? d' ∧
        d.Enters func (d.graph.item call) callee?) ∨
      ∃ name d', addLocalCall func call stop d = .error (.unknownFunction name) d') := by
  have hitem := Item.isOpcodeItem_of_isOpcode hcall
  have hplace := Graph.place_of_statement? (Graph.lt_size_of_isOpcodeItem hitem)
    (Item.statement?_of_isOpcodeItem hitem)
  have hmarked {d₁ : Decompilation} (h₁ : d.Advances [] d₁) :
      (d.marking [call]).Advances [] (d₁.marking [call]) := by
    refine h₁.marking (fun id hid => ?_) fun id hid => ?_ <;> rw [List.mem_singleton.1 hid]
    exacts [hplace.lt_size, Item.statement?_of_isOpcodeItem hitem]
  obtain ⟨cleanup, d₁, hcleanup⟩ : ∃ cleanup d₁, consumeCleanup call stop d = .ok cleanup d₁ :=
    ⟨_, _, rfl⟩
  have h₁ := quiet_consumeCleanup.of_ok hd hcleanup
  have hkept := h₁.grows.kept call hplace.lt_size
  unfold addLocalCall
  rw [bind_of_ok (get_apply d)]
  dsimp only
  rw [bind_of_ok hcleanup]
  have h₂ := (hmarked h₁).trans (advances_addOperation (hmarked h₁).sound (h₁.grows.place hplace)
    (hkept.statement?_eq_none (Item.statement?_of_isOpcodeItem hitem))
    { Operation.simple .call cleanup.pops cleanup.pushesResult cleanup.resultType with
      arg := (d.graph.item call).operandOrZero })
  obtain ⟨id, d₂, hadded⟩ : ∃ id d₂, addOperation call { Operation.simple .call cleanup.pops
      cleanup.pushesResult cleanup.resultType with arg := (d.graph.item call).operandOrZero } d₁ =
        .ok id d₂ := ⟨_, _, addOperation_apply ..⟩
  rw [hadded, final_ok] at h₂
  rw [bind_of_ok hadded]
  rcases enteredFunction_spec (d := d₂) func (d.graph.item call) with
    ⟨callee?, henters, hentered⟩ | ⟨name, hentered⟩
  · rw [bind_of_ok hentered]
    have henters' : d.Enters func (d.graph.item call) callee? := henters.congr h₂.frames.symm rfl
    cases callee? with
    | none => exact ⟨h₂, Or.inl ⟨none, d₂, rfl, henters'⟩⟩
    | some callee =>
      have hnote := quiet_noteCaller func callee h₂.sound
      exact ⟨h₂.trans hnote, Or.inl ⟨some callee, _, rfl, henters'⟩⟩
  · rw [bind_of_error hentered]
    exact ⟨h₂, Or.inr ⟨name, d₂, rfl⟩⟩

/-! ## The pass -/

/-- A part of the analysis marks no call and enters no function. -/
structure Silent (x : Pass (Option Nat)) (d : Decompilation) : Prop where
  quiet : Quiet x d
  enters : ∀ callee? d', x d = .ok callee? d' → callee? = none

theorem silent_none : Silent (pure none) d := ⟨quiet_pure none, fun _ _ h => (pure_eq_ok.1 h).1.symm⟩

theorem silent_get_bind {f : Decompilation → Pass (Option Nat)} (h : Silent (f d) d) :
    Silent (get >>= f) d := ⟨h.quiet, h.enters⟩

theorem Quiet.silent {α : Type} {x : Pass α} (hx : Quiet x d) : Silent (x >>= fun _ => pure none) d := by
  refine ⟨hx.bind fun _ _ _ _ => quiet_pure none, fun callee? d' h => ?_⟩
  obtain ⟨_, _, -, hnone⟩ := bind_eq_ok.1 h
  exact (pure_eq_ok.1 hnone).1.symm

theorem silent_analyzeOpcode (func : Nat) (h : d.graph.Site site) {opcode : Opcode}
    (hcall : opcode ≠ .call) : Silent (analyzeOpcode func stop site opcode) d := by
  cases opcode with
  | call => exact absurd rfl hcall
  | exitOp => exact (quiet_replaceByStatement h rfl).silent
  | calli => exact (quiet_addIntrinsicCall h).silent
  | sto => exact (quiet_addStore h).silent
  | pushiEff => exact (quiet_addVariable func h).silent
  | pushi =>
    refine silent_get_bind ?_
    dsimp only
    split
    · exact (quiet_addImmediate h).silent
    · exact silent_none
  | _ => first | exact (quiet_addOperation h _).silent | exact silent_none

theorem quiet_addReturn (func : Nat) (h : d.graph.Site site)
    (hbegins : d.graph.Begins site returnPattern) : Quiet (addReturn func site) d := by
  intro hd
  refine ((quiet_addOperation h _).bind fun _ d₁ _ h₁ => ?_ : Quiet (addReturn func site) d) hd
  refine (quiet_markOpcodes (h₁.begins hd h.lt_size hbegins) (by decide)).bind fun _ d₂ _ h₂ => ?_
  exact quiet_onFunction func fun _ => rfl

/-- All items but calls are replaced without a mark on a call. -/
theorem silent_analyzeItem (func : Nat) (stop : ItemId) (hcall : (d.graph.item site).isOpenOpcode .call = false) :
    Silent (analyzeItem func stop site) d := by
  refine silent_get_bind ?_
  dsimp only
  split
  · exact silent_none
  · rename_i opcode hopcode
    split at hopcode
    · cases hopcode
    · rename_i hopen
      have hne : opcode ≠ .call := by
        rintro rfl
        simp [Item.isOpenOpcode, Item.isOpcode, hopcode, hopen] at hcall
      have hsite : d.graph.Site site :=
        Graph.site_of_isOpcodeItem (Item.isOpcodeItem_of_opcode? hopcode) (by simpa [hopcode] using hne)
      split
      · rename_i hpattern
        exact (quiet_addElement func hsite (Graph.begins_of_matchesPattern hpattern)).silent
      · split
        · rename_i hpattern
          exact (quiet_addReturn func hsite (Graph.begins_of_matchesPattern hpattern)).silent
        · exact silent_analyzeOpcode func hsite hne

theorem analyzeItem_of_call (func : Nat) (hcall : (d.graph.item site).isOpenOpcode .call = true) :
    analyzeItem func stop site d = addLocalCall func site stop d := by
  have hopcode := Item.opcode?_of_isOpenOpcode hcall
  have hopen : (d.graph.item site).processed = false := by
    rw [Item.isOpenOpcode, Bool.and_eq_true, Bool.not_eq_true'] at hcall
    exact hcall.1
  have hpattern (opcode : Opcode) (hne : opcode ≠ .call) (pattern : List Opcode) :
      d.graph.matchesPattern site stop (opcode :: pattern) = false := by
    simp [Graph.matchesPattern, Item.isOpcode, hopcode, Ne.symm hne]
  rw [analyzeItem, bind_of_ok (get_apply d), hopen, if_neg Bool.false_ne_true, hopcode]
  rw [elementPattern, hpattern _ (by decide), returnPattern, hpattern _ (by decide)]
  rfl

end Pass

namespace Decompilation

variable {d₁ : Decompilation} {func : Nat} {callees : List Nat} {ids calls : List ItemId}
  {entries : List (ItemId × Option Nat)}

theorem sublist_body (d : Decompilation) (func : Nat) : (d.body func).Sublist d.graph.order :=
  ((List.takeWhile_sublist _).trans (List.tail_sublist _)).trans (List.dropWhile_sublist _)

/-- The calls among items that nothing has replaced. -/
def openCalls (d : Decompilation) (ids : List ItemId) : List ItemId :=
  ids.filter fun id => (d.graph.item id).isOpenOpcode .call

theorem place_of_mem_openCalls {id : ItemId} (h : id ∈ d.openCalls ids) :
    id < d.graph.size ∧ (d.graph.item id).statement? = none := by
  have hitem := Item.isOpcodeItem_of_opcode? (Item.opcode?_of_isOpenOpcode (List.mem_filter.1 h).2)
  exact ⟨Graph.lt_size_of_isOpcodeItem hitem, Item.statement?_of_isOpcodeItem hitem⟩

/-- Calls in the function `func` have been replaced, and each of them enters what stands beside it. -/
structure Passes (d : Decompilation) (func : Nat) (entries : List (ItemId × Option Nat))
    (d' : Decompilation) : Prop where
  advances : (d.marking (entries.map Prod.fst)).Advances [] d'
  enters : ∀ entry ∈ entries, d.Enters func (d.graph.item entry.1) entry.2

/-- What comes of an analysis that meets calls, behind `callees`: all of them are replaced, or a part of them
before a fault.  If that is none of the search for a function all of the part enter what they should. -/
inductive Analyzed (d : Decompilation) (func : Nat) (calls : List ItemId) (callees : List Nat) :
    EStateM.Result DecompileFault Decompilation (List Nat) → Prop where
  | done {entries : List (ItemId × Option Nat)} {d' : Decompilation} (h : d.Passes func entries d')
      (hcalls : entries.map Prod.fst = calls) :
      Analyzed d func calls callees (.ok (callees ++ entries.filterMap Prod.snd) d')
  | failed {front : List ItemId} {fault : DecompileFault} {d' : Decompilation} (hfront : front <+: calls)
      (h : (d.marking front).Advances [] d')
      (henters : (∃ name, fault = .unknownFunction name) ∨
        ∀ call ∈ front, ∃ callee?, d.Enters func (d.graph.item call) callee?) :
      Analyzed d func calls callees (.error fault d')

theorem Analyzed.done_nil {d' : Decompilation} (h : d.Advances [] d') :
    d.Analyzed func [] callees (.ok callees d') := by
  have hpasses : d.Passes func [] d' := ⟨h, fun _ hentry => absurd hentry List.not_mem_nil⟩
  have hdone : d.Analyzed func [] callees (.ok (callees ++ []) d') := .done hpasses rfl
  rwa [List.append_nil] at hdone

theorem Passes.kept (h : d.Passes func entries d₁) {id : ItemId} (hid : id < d.graph.size) :
    ((d.marking (entries.map Prod.fst)).graph.item id).Kept (d₁.graph.item id) :=
  h.advances.grows.kept id (Nat.lt_of_lt_of_eq hid (Graph.size_markAll d.graph _).symm)

theorem Passes.op (h : d.Passes func entries d₁) {id : ItemId} (hid : id < d.graph.size) :
    (d₁.graph.item id).opcodeItem? = (d.graph.item id).opcodeItem? :=
  (h.kept hid).op.trans (Graph.markAll_keeps (p := Item.opcodeItem?) (fun _ => rfl) d.graph _ id)

theorem Passes.size_le (h : d.Passes func entries d₁) : d.graph.size ≤ d₁.graph.size :=
  Nat.le_trans (Nat.le_of_eq (Graph.size_markAll d.graph _).symm) h.advances.grows.size

/-- Calls that are still open behind other calls have been open before. -/
theorem Passes.openCalls (h : d.Passes func entries d₁)
    (hids : ∀ id ∈ ids, id < d.graph.size ∧ id ∉ entries.map Prod.fst) :
    d₁.openCalls ids = d.openCalls ids := by
  refine List.filter_congr fun id hid => ?_
  obtain ⟨hlt, hnotMem⟩ := hids id hid
  have hkept := h.kept hlt
  have hsame : (d.marking (entries.map Prod.fst)).graph.item id = d.graph.item id :=
    Graph.item_markAll_of_notMem d.graph hnotMem
  rw [hsame] at hkept
  rw [Item.isOpenOpcode, hkept.isOpcode, Item.isOpenOpcode]
  cases hcall : (d.graph.item id).isOpcode .call with
  | false => simp
  | true => rw [hkept.call hcall]

/-- When the first of some items has been analyzed, the calls among the others are as open as before. -/
theorem Passes.openCalls_rest {id : ItemId} {rest : List ItemId} (h : d.Passes func entries d₁)
    (hsame : entries.map Prod.fst = d.openCalls [id]) (hids : (id :: rest).Nodup)
    (hlt : ∀ other ∈ rest, other < d.graph.size) : d₁.openCalls rest = d.openCalls rest := by
  refine h.openCalls fun other hother => ⟨hlt other hother, ?_⟩
  rw [hsame]
  intro hmem
  have heq := List.mem_singleton.1 (List.mem_of_mem_filter hmem)
  exact (List.nodup_cons.1 hids).1 (heq ▸ hother)

/-- An analysis may begin with calls that have been replaced. -/
theorem Passes.analyzed {result : EStateM.Result DecompileFault Decompilation (List Nat)}
    (h : d.Passes func entries d₁)
    (h' : d₁.Analyzed func calls (callees ++ entries.filterMap Prod.snd) result)
    (hcalls : ∀ call ∈ calls, call < d.graph.size ∧ (d.graph.item call).statement? = none) :
    d.Analyzed func (entries.map Prod.fst ++ calls) callees result := by
  have hadvances {front : List ItemId} {d' : Decompilation} (hfront : front ⊆ calls)
      (hlater : (d₁.marking front).Advances [] d') :
      (d.marking (entries.map Prod.fst ++ front)).Advances [] d' :=
    h.advances.markMore hlater fun id hid => hcalls id (hfront hid)
  have henters {call : ItemId} {callee? : Option Nat} (hcall : call ∈ calls)
      (henters : d₁.Enters func (d₁.graph.item call) callee?) :
      d.Enters func (d.graph.item call) callee? :=
    henters.congr h.advances.frames.symm (h.op (hcalls call hcall).1).symm
  cases h' with
  | @done later d' hlater hsame =>
    rw [List.append_assoc, ← List.filterMap_append]
    refine .done ⟨?_, fun entry hentry => ?_⟩ (by rw [List.map_append, hsame])
    · rw [List.map_append]
      exact hadvances (hsame ▸ List.Subset.refl _) hlater.advances
    · rcases List.mem_append.1 hentry with hentry | hentry
      · exact h.enters entry hentry
      · exact henters (hsame ▸ List.mem_map_of_mem hentry) (hlater.enters entry hentry)
  | @failed front fault d' hfront hlater hfault =>
    refine .failed ((List.prefix_append_right_inj _).2 hfront) (hadvances hfront.subset hlater) ?_
    refine hfault.imp id fun hfault call hcall => ?_
    rcases List.mem_append.1 hcall with hcall | hcall
    · obtain ⟨entry, hentry, rfl⟩ := List.mem_map.1 hcall
      exact ⟨entry.2, h.enters entry hentry⟩
    · exact (hfault call hcall).imp fun _ => henters (hfront.subset hcall)

end Decompilation

namespace Pass

/-- One item is analyzed. -/
theorem analyzed_analyzeNext (hd : d.graph.Sound) (func : Nat) (stop : ItemId) (callees : List Nat)
    (id : ItemId) :
    d.Analyzed func (d.openCalls [id]) callees (analyzeNext func stop callees id d) := by
  cases hcall : (d.graph.item id).isOpenOpcode .call with
  | false =>
    have hsilent := silent_analyzeItem func stop hcall
    have hfinal := hsilent.quiet hd
    rw [Decompilation.openCalls, List.filter_cons, if_neg (by simp [hcall]), List.filter_nil, analyzeNext]
    cases hresult : analyzeItem func stop id d with
    | ok callee? d₁ =>
      rw [hresult] at hfinal
      rw [bind_of_ok hresult, hsilent.enters _ _ hresult]
      rw [Option.toList_none, List.append_nil]
      exact .done_nil hfinal
    | error fault d₁ =>
      rw [hresult] at hfinal
      rw [bind_of_error hresult]
      exact .failed List.nil_prefix hfinal (Or.inr fun _ hcall => absurd hcall List.not_mem_nil)
  | true =>
    obtain ⟨hfinal, hresult⟩ := addLocalCall_spec hd func stop
      (decide_eq_true (Item.opcode?_of_isOpenOpcode hcall))
    rw [← analyzeItem_of_call func hcall] at hfinal
    rw [Decompilation.openCalls, List.filter_cons, if_pos hcall, List.filter_nil, analyzeNext]
    rcases hresult with ⟨callee?, d₁, hresult, henters⟩ | ⟨name, d₁, hresult⟩ <;>
      rw [← analyzeItem_of_call func hcall] at hresult <;> rw [hresult] at hfinal
    · rw [bind_of_ok hresult]
      have hpasses : d.Passes func [(id, callee?)] d₁ :=
        ⟨hfinal, fun entry hentry => by rw [List.mem_singleton.1 hentry]; exact henters⟩
      have hcallee : [(id, callee?)].filterMap Prod.snd = callee?.toList := by cases callee? <;> rfl
      rw [← hcallee]
      exact .done hpasses rfl
    · rw [bind_of_error hresult]
      exact .failed (List.prefix_refl _) hfinal (Or.inl ⟨name, rfl⟩)

theorem analyzed_foldlM (hd : d.graph.Sound) (func : Nat) (stop : ItemId) {ids : List ItemId} (hids : ids.Nodup)
    (hlt : ∀ id ∈ ids, id < d.graph.size) (callees : List Nat) :
    d.Analyzed func (d.openCalls ids) callees (ids.foldlM (analyzeNext func stop) callees d) := by
  induction ids generalizing d callees with
  | nil => exact .done_nil (Decompilation.Advances.refl hd)
  | cons id rest ih =>
    have hfirst := analyzed_analyzeNext hd func stop callees id
    have hcalls : d.openCalls (id :: rest) = d.openCalls [id] ++ d.openCalls rest :=
      List.filter_append [id] rest
    rw [List.foldlM_cons, hcalls]
    cases hresult : analyzeNext func stop callees id d with
    | error fault d₁ =>
      rw [hresult] at hfirst
      rw [bind_of_error hresult]
      cases hfirst with
      | failed hfront hadvances hfault =>
        exact .failed (hfront.trans (List.prefix_append _ _)) hadvances hfault
    | ok callees₁ d₁ =>
      rw [hresult] at hfirst
      rw [bind_of_ok hresult]
      cases hfirst with
      | @done entries d₁ hpasses hsame =>
        have hnodup := List.nodup_cons.1 hids
        have hlater : ∀ other ∈ rest, other < d.graph.size := fun other hother =>
          hlt other (List.mem_cons_of_mem _ hother)
        have hopen := hpasses.openCalls_rest hsame hids hlater
        have hrest := ih hpasses.advances.sound hnodup.2 (fun other hother =>
          Nat.lt_of_lt_of_le (hlater other hother) hpasses.size_le) (callees ++ entries.filterMap Prod.snd)
        rw [hopen] at hrest
        rw [← hsame]
        exact hpasses.analyzed hrest fun call hcall => Decompilation.place_of_mem_openCalls hcall

/-- What comes of the analysis of a function. -/
theorem analyzed_analyze (hd : d.graph.Sound) (func : Nat) :
    d.Analyzed func (d.openCalls (d.body func)) [] (analyze func d) := by
  have hsub := d.sublist_body func
  exact analyzed_foldlM hd func _ (hd.ordered.nodup.sublist hsub)
    (fun id hid => hd.ordered.lt_of_mem (hsub.subset hid)) []

end Pass

end Parley
