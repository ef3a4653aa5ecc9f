import Parley.Proofs.Effect.Causation
import Parley.Proofs.SortedMap
set_option autoImplicit false

/-!
# The leaves of expressions

The expressions that the analysis of a function puts into the listing are leaves: numbers, globals, variables and
elements of local arrays.  It takes note of each variable and element among the variables of the function, and of
nothing else.  The functions that are noted as callers are noted by their names.
-/

namespace Parley

open Fallible

/-- What the pushes stand for that the analysis replaces by expressions. -/
inductive Leaf where
  | number (value : UInt16)
  | global (name : String)
  | scalar (index : UInt16) (loaded : Bool)
  | param (ordinal : UInt16)
  | element (start index : UInt16)
  deriving DecidableEq

namespace Leaf

/-- The expression that a leaf is. -/
def expression : Leaf → Expr
  | .number value => .const value
  | .global name => .atom name false
  | .scalar index loaded => .atom (Pass.localName index) (!loaded)
  | .param ordinal => .atom ("param" ++ Text.decimal ordinal) true
  | .element start index => .atom (Pass.elementText (Pass.localName start) (Text.decimal index)) true

/-- What is noted about the variables of a function for a leaf in it. -/
def note : Leaf → Variables → Variables
  | .number _, vars => vars
  | .global _, vars => vars
  | .scalar index _, vars => vars.useLocal index
  | .param ordinal, vars => vars.useParam ordinal
  | .element start index, vars => vars.noteArray start index

end Leaf

namespace Graph

variable {g g' g'' : Graph} {id : ItemId}

/-- The expressions among the items from a number on. -/
def expressionsFrom (g : Graph) (first : ItemId) : List Expr :=
  (List.range' first (g.size - first)).filterMap fun id => (g.item id).expression?

/-- At most marks are new, and only instructions have got them. -/
structure Spends (g g' : Graph) : Prop extends g.Marks g' where
  spared : ∀ id, (g.item id).isOpcodeItem = false → (g'.item id).processed = (g.item id).processed

theorem isOpcodeItem_congr (h : (g'.item id).kind = (g.item id).kind) :
    (g'.item id).isOpcodeItem = (g.item id).isOpcodeItem := by
  rw [Item.isOpcodeItem, Item.opcodeItem?, h, Item.isOpcodeItem, Item.opcodeItem?]

namespace Spends

theorem refl (g : Graph) : g.Spends g := ⟨.refl g, fun _ _ => rfl⟩

theorem trans (h : g.Spends g') (h' : g'.Spends g'') : g.Spends g'' :=
  ⟨h.toMarks.trans h'.toMarks, fun id hid =>
    (h'.spared id ((isOpcodeItem_congr (h.kind id)).trans hid)).trans (h.spared id hid)⟩

end Spends

theorem spends_modify {f : Item → Item} (hid : (g.item id).isOpcodeItem = true)
    (hkind : ∀ item, (f item).kind = item.kind)
    (hprocessed : ∀ item, item.processed = true → (f item).processed = true) : g.Spends (g.modify id f) := by
  refine ⟨marks_modify g id hkind hprocessed, fun other hother => ?_⟩
  have hne : other ≠ id := fun hsame => by
    rw [hsame, hid] at hother
    cases hother
  rw [item_modify_of_ne hne]

theorem spends_markProcessed (hid : (g.item id).isOpcodeItem = true) : g.Spends (g.markProcessed id) :=
  spends_modify hid (fun _ => rfl) fun _ _ => rfl

theorem spends_markAll {ids : List ItemId} (hids : ∀ id ∈ ids, (g.item id).isOpcodeItem = true) :
    g.Spends (g.modifyAll ids Item.markProcessed) := by
  induction ids generalizing g with
  | nil => exact .refl g
  | cons id rest ih =>
    have hfirst := spends_markProcessed (hids id List.mem_cons_self)
    refine hfirst.trans (ih fun other hother => ?_)
    exact (isOpcodeItem_congr (hfirst.kind other)).trans (hids other (List.mem_cons_of_mem _ hother))

end Graph

namespace Decompilation

variable {d d' d'' : Decompilation} {func : Nat} {leaves more : List Leaf}

/-- All callers that have been noted are functions. -/
def Attributed (d : Decompilation) : Prop :=
  ∀ callers ∈ d.functions.toList.map (·.callers), ∀ caller ∈ callers.keys, ∃ f ∈ d.frames, f.name = caller

/-! ## Changes of functions -/

theorem map_onFunction {α : Type} {p : FunctionInfo → α} {f : FunctionInfo → FunctionInfo}
    (hp : ∀ info, p (f info) = p info) (d : Decompilation) (func : Nat) :
    (d.onFunction func f).functions.toList.map p = d.functions.toList.map p := by
  refine List.ext_getElem? fun other => ?_
  simp only [onFunction, Array.toList_modify, List.getElem?_map, List.getElem?_modify]
  cases d.functions.toList[other]? with
  | none => rfl
  | some info =>
    split
    · exact congrArg some (hp info)
    · rfl

theorem Attributed.congr (h : d.Attributed) (hframes : d'.frames = d.frames)
    (hcallers : d'.functions.toList.map (·.callers) = d.functions.toList.map (·.callers)) : d'.Attributed := by
  rw [Attributed, hframes, hcallers]
  exact h

theorem Attributed.onFunction (h : d.Attributed) (func : Nat) {f : FunctionInfo → FunctionInfo}
    (hframe : ∀ info, (f info).frame = info.frame) (hcallers : ∀ info, (f info).callers = info.callers) :
    (d.onFunction func f).Attributed :=
  h.congr (Pass.frames_onFunction d func hframe) (map_onFunction hcallers d func)

/-- A function may be noted as a caller. -/
theorem Attributed.noteCaller (h : d.Attributed) (func callee : Nat) :
    (final (Pass.noteCaller func callee d)).Attributed := by
  rw [Pass.noteCaller, modify_apply, final_ok]
  cases hinfo : d.functions[func]? with
  | none => exact h
  | some info =>
    have hmem : info ∈ d.functions.toList := Array.mem_toList_iff.2 (Array.mem_of_getElem? hinfo)
    intro callers hcallers caller hcaller
    have hframes := Pass.frames_onFunction d callee
      (f := fun called => { called with callers := called.callers.insert info.name () }) fun _ => rfl
    dsimp only at hcallers ⊢
    rw [hframes]
    obtain ⟨called, hcalled, rfl⟩ := List.mem_map.1 hcallers
    obtain ⟨other, hother⟩ := List.getElem?_of_mem hcalled
    simp only [Decompilation.onFunction, Array.toList_modify, List.getElem?_modify] at hother
    obtain ⟨old, hold, rfl⟩ := Option.map_eq_some_iff.1 hother
    have hkept {caller : String} (hcaller : caller ∈ old.callers.keys) : ∃ f ∈ d.frames, f.name = caller :=
      h _ (List.mem_map_of_mem (List.mem_of_getElem? hold)) caller hcaller
    split at hcaller
    · obtain ⟨entry, hentry, rfl⟩ := List.mem_map.1 hcaller
      rcases SortedMap.mem_insert hentry with rfl | hentry
      · exact ⟨info.frame, List.mem_map_of_mem hmem, rfl⟩
      · exact hkept (List.mem_map_of_mem hentry)
    · exact hkept hcaller

/-! ## Leaves that are put -/

/-- Instructions have been replaced.  Leaves have been put into the listing, and nothing else that is an expression, and
they have been noted among the variables of the function `func`. -/
structure Gains (d : Decompilation) (func : Nat) (leaves : List Leaf) (d' : Decompilation) : Prop where
  size : d.graph.size ≤ d'.graph.size
  kind : ∀ id < d.graph.size, (d'.graph.item id).kind = (d.graph.item id).kind
  spared : ∀ id < d.graph.size, (d.graph.item id).isOpcodeItem = false →
    (d'.graph.item id).processed = (d.graph.item id).processed
  opened : ∀ id, d.graph.size ≤ id → (d'.graph.item id).isOpcodeItem = false ∧ (d'.graph.item id).processed = false
  made : d'.graph.expressionsFrom d.graph.size = leaves.map Leaf.expression
  noted : d'.variableTable =
    d.variableTable.modify func fun vars => leaves.foldl (fun vars leaf => leaf.note vars) vars
  options : d'.options = d.options
  attributed : d.Attributed → d'.Attributed

theorem expressionsFrom_of_size_le {g : Graph} {first : ItemId} (h : g.size ≤ first) :
    g.expressionsFrom first = [] := by
  rw [Graph.expressionsFrom, Nat.sub_eq_zero_of_le h]
  rfl

/-- What is marked at most gains nothing. -/
theorem gains_of_spends (hspends : d.graph.Spends d'.graph) (hnoted : d'.variableTable = d.variableTable)
    (hoptions : d'.options = d.options) (hattributed : d.Attributed → d'.Attributed) : d.Gains func [] d' where
  size := Nat.le_of_eq hspends.size.symm
  kind id _ := hspends.kind id
  spared id _ := hspends.spared id
  opened id hid := by
    rw [Graph.item_of_size_le (hspends.size.symm ▸ hid)]
    exact ⟨rfl, rfl⟩
  made := expressionsFrom_of_size_le (Nat.le_of_eq hspends.size)
  noted := by
    rw [hnoted]
    exact (List.modify_id _ _).symm
  options := hoptions
  attributed := hattributed

theorem Gains.refl (d : Decompilation) (func : Nat) : d.Gains func [] d := gains_of_spends (.refl _) rfl rfl id

theorem Gains.trans (h : d.Gains func leaves d') (h' : d'.Gains func more d'') :
    d.Gains func (leaves ++ more) d'' where
  size := Nat.le_trans h.size h'.size
  kind id hid := (h'.kind id (Nat.lt_of_lt_of_le hid h.size)).trans (h.kind id hid)
  spared id hid hitem :=
    (h'.spared id (Nat.lt_of_lt_of_le hid h.size) ((Graph.isOpcodeItem_congr (h.kind id hid)).trans hitem)).trans
      (h.spared id hid hitem)
  opened id hid := by
    by_cases hlt : id < d'.graph.size
    · obtain ⟨hitem, hopen⟩ := h.opened id hid
      exact ⟨(Graph.isOpcodeItem_congr (h'.kind id hlt)).trans hitem, (h'.spared id hlt hitem).trans hopen⟩
    · exact h'.opened id (Nat.le_of_not_lt hlt)
  made := by
    have hsplit : List.range' d.graph.size (d''.graph.size - d.graph.size) =
        List.range' d.graph.size (d'.graph.size - d.graph.size) ++
          List.range' d'.graph.size (d''.graph.size - d'.graph.size) := by
      obtain ⟨count, hcount⟩ := Nat.exists_eq_add_of_le h.size
      obtain ⟨count', hcount'⟩ := Nat.exists_eq_add_of_le h'.size
      rw [hcount', hcount, Nat.add_assoc, Nat.add_sub_cancel_left, Nat.add_sub_cancel_left, ← Nat.add_assoc,
        Nat.add_sub_cancel_left]
      exact (List.range'_append_1 ..).symm
    have hold : (List.range' d.graph.size (d'.graph.size - d.graph.size)).filterMap
        (fun id => (d''.graph.item id).expression?) = d'.graph.expressionsFrom d.graph.size := by
      refine List.filterMap_congr fun id hid => ?_
      have hlt : id < d'.graph.size := by
        have hrange := List.mem_range'_1.1 hid
        rw [Nat.add_sub_cancel' h.size] at hrange
        exact hrange.2
      rw [Item.expression?, h'.kind id hlt, ← Item.expression?]
    rw [Graph.expressionsFrom, hsplit, List.filterMap_append, hold, h.made, List.map_append]
    exact congrArg _ h'.made
  noted := by
    rw [h'.noted, h.noted, List.modify_modify_eq]
    congr 1
    funext vars
    exact List.foldl_append.symm
  options := h'.options.trans h.options
  attributed := h'.attributed ∘ h.attributed

/-- A new item that is put before one of those marked is the only one. -/
theorem expressionsFrom_insertBefore {g g' : Graph} (h : g.Marks g') (site : ItemId) (item : Item) :
    (g'.insertBefore site item).expressionsFrom g.size = item.expression?.toList := by
  rw [Graph.expressionsFrom, Graph.size_insertBefore, h.size, Nat.add_sub_cancel_left, List.range'_one, ← h.size]
  simp only [List.filterMap_cons, List.filterMap_nil, Graph.item_insertBefore_new]
  cases item.expression? <;> rfl

theorem kind_insertBefore {g g' : Graph} (h : g.Marks g') (site : ItemId) (item : Item) {id : ItemId}
    (hid : id < g.size) : ((g'.insertBefore site item).item id).kind = (g.item id).kind := by
  rw [Graph.item_insertBefore_of_ne (h.size ▸ Nat.ne_of_lt hid), h.kind]

/-- What no instruction leads to keeps its mark when an item is put. -/
theorem spared_insertBefore {g g' : Graph} (h : g.Spends g') (site : ItemId) (item : Item) {id : ItemId}
    (hid : id < g.size) (hinstruction : (g.item id).isOpcodeItem = false) :
    ((g'.insertBefore site item).item id).processed = (g.item id).processed := by
  rw [Graph.item_insertBefore_of_ne (h.size ▸ Nat.ne_of_lt hid), h.spared id hinstruction]

/-- An item is put that is no instruction; it is the leaf that is noted, if it is an expression. -/
theorem gains_put (d' : Decompilation) {g : Graph} (h : d.graph.Spends g) (site : ItemId) {item : Item}
    (hitem : item.isOpcodeItem = false ∧ item.processed = false)
    (hmade : item.expression?.toList = leaves.map Leaf.expression)
    (hnoted : d'.variableTable =
      d.variableTable.modify func fun vars => leaves.foldl (fun vars leaf => leaf.note vars) vars)
    (hoptions : d'.options = d.options) (hattributed : d.Attributed → d'.Attributed) :
    d.Gains func leaves (d'.onGraph fun _ => g.insertBefore site item) where
  size := by
    rw [onGraph, Graph.size_insertBefore, h.size]
    exact Nat.le_succ _
  kind id hid := kind_insertBefore h.toMarks site item hid
  spared id hid hinstruction := spared_insertBefore h site item hid hinstruction
  opened id hid := by
    rw [onGraph]
    by_cases hnew : id = g.size
    · rw [hnew, Graph.item_insertBefore_new]
      exact hitem
    · rw [Graph.item_insertBefore_of_ne hnew, Graph.item_of_size_le (h.size.symm ▸ hid)]
      exact ⟨rfl, rfl⟩
  made := (expressionsFrom_insertBefore h.toMarks site item).trans hmade
  noted := hnoted
  options := hoptions
  attributed := hattributed

theorem Gains.isOpcodeItem {id : ItemId} (h : d.Gains func leaves d') (hid : (d.graph.item id).isOpcodeItem = true) :
    (d'.graph.item id).isOpcodeItem = true :=
  (Graph.isOpcodeItem_congr (h.kind id (Graph.lt_size_of_isOpcodeItem hid))).trans hid

end Decompilation

/-! ## The analysis of a function -/

namespace Pass

variable {α β : Type} {d : Decompilation} {func : Nat} {site call stop : ItemId}

/-- A pass puts leaves into the function `func` as expressions, and nothing else, whether it succeeds or faults. -/
def Gaining (func : Nat) (x : Pass α) (d : Decompilation) : Prop := ∃ leaves, d.Gains func leaves (final (x d))

theorem gaining_pure (a : α) : Gaining func (pure a) d := ⟨[], .refl d func⟩

theorem gaining_throw (fault : DecompileFault) : Gaining func (throw fault : Pass α) d := ⟨[], .refl d func⟩

theorem gaining_get_bind {f : Decompilation → Pass α} (h : Gaining func (f d) d) : Gaining func (get >>= f) d := h

theorem Gaining.bind {x : Pass α} {f : α → Pass β} (hx : Gaining func x d)
    (hf : ∀ a d' leaves, d.Gains func leaves d' → Gaining func (f a) d') : Gaining func (x >>= f) d := by
  obtain ⟨leaves, hfirst⟩ := hx
  cases h : x d with
  | ok a d' =>
    rw [h] at hfirst
    obtain ⟨more, hrest⟩ := hf a d' leaves hfirst
    refine ⟨leaves ++ more, ?_⟩
    rw [bind_of_ok h]
    exact hfirst.trans hrest
  | error fault d' =>
    rw [h] at hfirst
    refine ⟨leaves, ?_⟩
    rw [bind_of_error h]
    exact hfirst

theorem Gaining.bind_pure {x : Pass α} (hx : Gaining func x d) (b : β) : Gaining func (x >>= fun _ => pure b) d :=
  hx.bind fun _ _ _ _ => gaining_pure b

theorem gaining_markProcessed {id : ItemId} (hid : (d.graph.item id).isOpcodeItem = true) :
    Gaining func (onGraph (·.markProcessed id)) d :=
  ⟨[], Decompilation.gains_of_spends (Graph.spends_markProcessed hid) rfl rfl fun h => h⟩

theorem gaining_markAll {ids : List ItemId} (hids : ∀ id ∈ ids, (d.graph.item id).isOpcodeItem = true) :
    Gaining func (onGraph (·.modifyAll ids Item.markProcessed)) d :=
  ⟨[], Decompilation.gains_of_spends (Graph.spends_markAll hids) rfl rfl fun h => h⟩

theorem gaining_markOpcodes (id : ItemId) (count : Nat) : Gaining func (onGraph (·.markOpcodes id count)) d :=
  gaining_markAll fun _ hid => (List.mem_filter.1 (List.mem_of_mem_take hid)).2

section Sites

variable (hsite : (d.graph.item site).isOpcodeItem = true)

include hsite

theorem gaining_addOperation (operation : Operation) : Gaining func (addOperation site operation) d := by
  refine ⟨[], ?_⟩
  rw [addOperation_apply, final_ok]
  exact Decompilation.gains_put d (Graph.spends_markProcessed hsite) site ⟨rfl, rfl⟩ rfl (List.modify_id _ _).symm rfl
    fun h => h

theorem gaining_replaceByStatement (statement : Statement) :
    Gaining func (replaceByStatement site statement) d := by
  refine ⟨[], ?_⟩
  rw [replaceByStatement_apply, final_ok]
  exact Decompilation.gains_put d (Graph.spends_markProcessed hsite) site ⟨rfl, rfl⟩ rfl (List.modify_id _ _).symm rfl
    fun h => h

/-- A leaf that is noted. -/
theorem gaining_noted (leaf : Leaf) :
    Gaining func (modify (·.onVariables func leaf.note) >>= fun _ => addExpression site leaf.expression) d := by
  have hspends : d.graph.Spends (d.graph.modify site fun old => old.withoutLabel.markProcessed) :=
    Graph.spends_modify (f := fun old => old.withoutLabel.markProcessed) hsite (fun _ => rfl) fun _ _ => rfl
  refine ⟨[leaf], ?_⟩
  rw [bind_of_ok (modify_apply _ _), addExpression_apply, final_ok]
  exact Decompilation.gains_put (d.onVariables func leaf.note) hspends site ⟨rfl, rfl⟩ rfl
    (d.variableTable_onVariables func leaf.note) rfl fun h => h.onFunction func
      (f := fun info => { info with vars := leaf.note info.vars }) (fun _ => rfl) fun _ => rfl

/-- A leaf of which nothing is noted. -/
theorem gaining_addExpression (leaf : Leaf) (h : ∀ vars, leaf.note vars = vars) :
    Gaining func (addExpression site leaf.expression) d := by
  have hspends : d.graph.Spends (d.graph.modify site fun old => old.withoutLabel.markProcessed) :=
    Graph.spends_modify (f := fun old => old.withoutLabel.markProcessed) hsite (fun _ => rfl) fun _ _ => rfl
  refine ⟨[leaf], ?_⟩
  rw [addExpression_apply, final_ok]
  refine Decompilation.gains_put d hspends site ⟨rfl, rfl⟩ rfl ?_ rfl fun h => h
  rw [show (fun vars => [leaf].foldl (fun vars leaf => leaf.note vars) vars) = id from funext h, List.modify_id]

/-! ### Pushes -/

omit hsite in
theorem gaining_consumeLoad (id : ItemId) : Gaining func (consumeLoad id) d := by
  refine gaining_get_bind ?_
  split
  · exact gaining_pure false
  · rename_i next hnext
    have hopen := (Option.filter_eq_some_iff.1 hnext).2
    exact (gaining_markProcessed (Item.isOpcodeItem_of_opcode? (Item.opcode?_of_isOpenOpcode hopen))).bind_pure true

theorem gaining_addElement : Gaining func (addElement func site) d := by
  refine gaining_get_bind ?_
  dsimp only
  rw [← bind_assoc]
  exact (gaining_noted hsite (.element _ _)).bind fun _ _ _ _ => gaining_markOpcodes site _

theorem gaining_addVariable : Gaining func (addVariable func site) d := by
  refine gaining_get_bind ((gaining_consumeLoad site).bind fun loaded d' _ h => ?_)
  dsimp only
  split
  · rw [← bind_assoc]
    exact (gaining_noted (h.isOpcodeItem hsite) (.param _)).bind_pure _
  · rw [← bind_assoc]
    exact (gaining_noted (h.isOpcodeItem hsite) (.scalar _ loaded)).bind_pure _

theorem gaining_addImmediate : Gaining func (addImmediate site) d := by
  refine gaining_get_bind ((gaining_consumeLoad site).bind fun loaded d' _ h => Gaining.bind_pure ?_ _)
  cases loaded with
  | true => exact gaining_addExpression (h.isOpcodeItem hsite) (.global _) fun _ => rfl
  | false => exact gaining_addExpression (h.isOpcodeItem hsite) (.number _) fun _ => rfl

/-! ### Operations -/

theorem gaining_addStore : Gaining func (addStore site) d := by
  refine gaining_get_bind ?_
  dsimp only
  split
  · rename_i swap hswap
    have hopen := (Option.filter_eq_some_iff.1 hswap).2
    refine (gaining_markProcessed (Item.isOpcodeItem_of_opcode? (Item.opcode?_of_isOpenOpcode hopen))).bind
      fun _ _ _ h => ?_
    exact (gaining_addOperation (h.isOpcodeItem hsite) _).bind_pure _
  · exact (gaining_addOperation hsite _).bind_pure _

theorem gaining_addReturn : Gaining func (addReturn func site) d := by
  refine (gaining_addOperation hsite _).bind fun _ _ _ _ => (gaining_markOpcodes _ _).bind fun _ d' _ _ => ⟨[], ?_⟩
  have hreturns := d'.map_onFunction (p := (·.vars)) (f := fun info => { info with returnType := .int })
    (fun _ => rfl) func
  exact Decompilation.gains_of_spends (.refl _) hreturns rfl fun h =>
    h.onFunction func (f := fun info => { info with returnType := .int }) (fun _ => rfl) fun _ => rfl

end Sites

/-! ### Calls -/

theorem gaining_importedName (pos id : UInt16) : Gaining func (importedName pos id) d := by
  refine gaining_get_bind ?_
  split
  · exact gaining_throw _
  · exact gaining_pure _

theorem gaining_consumeCleanup : Gaining func (consumeCleanup call stop) d := by
  refine gaining_get_bind ((gaining_markAll fun id hid => ?_).bind_pure _)
  rcases List.mem_append.1 hid with hid | hid
  · have hopen := List.mem_takeWhile_imp hid
    exact Item.isOpcodeItem_of_opcode? (Item.opcode?_of_isOpenOpcode hopen)
  · have hopen := (Option.filter_eq_some_iff.1 (Option.mem_toList.1 hid)).2
    exact Item.isOpcodeItem_of_opcode? (Item.opcode?_of_isOpenOpcode hopen)

theorem gaining_enteredFunction (target : UInt16) (label : Option String) :
    Gaining func (enteredFunction func target label) d := by
  refine gaining_get_bind ?_
  dsimp only
  -- A call enters no function or the one that is found, or it fails.
  cases d.functionAt? target <;> split <;> split
  all_goals first | exact gaining_pure _ | exact gaining_throw _

theorem gaining_noteCaller (callee : Nat) : Gaining func (noteCaller func callee) d := by
  have hattributed (h : d.Attributed) := h.noteCaller func callee
  refine ⟨[], ?_⟩
  rw [noteCaller, modify_apply, final_ok] at hattributed ⊢
  cases hinfo : d.functions[func]? with
  | none => exact .refl d func
  | some info =>
    rw [hinfo] at hattributed
    exact Decompilation.gains_of_spends (.refl _) (Decompilation.map_onFunction
      (f := fun called => { called with callers := called.callers.insert info.name () }) (fun _ => rfl) d callee) rfl
      hattributed

section Calls

variable (hcall : (d.graph.item call).isOpcodeItem = true)

include hcall

theorem gaining_addIntrinsicCall : Gaining func (addIntrinsicCall call stop) d := by
  refine gaining_get_bind ((gaining_importedName _ _).bind fun _ _ _ h => ?_)
  refine (gaining_markProcessed (h.isOpcodeItem hcall)).bind fun _ _ _ h' => ?_
  refine gaining_consumeCleanup.bind fun _ _ _ h'' => (gaining_addOperation ?_ _).bind_pure _
  refine h''.isOpcodeItem (h'.isOpcodeItem (h.isOpcodeItem ?_))
  cases hcount : (d.graph.prev? call).filter fun prev => (d.graph.item prev).isOpenOpcode .pushi with
  | none => exact hcall
  | some count =>
    have hopen := (Option.filter_eq_some_iff.1 hcount).2
    exact Item.isOpcodeItem_of_opcode? (Item.opcode?_of_isOpenOpcode hopen)

theorem gaining_addLocalCall : Gaining func (addLocalCall func call stop) d := by
  refine gaining_get_bind (gaining_consumeCleanup.bind fun _ _ _ h => ?_)
  refine (gaining_addOperation (h.isOpcodeItem hcall) _).bind fun _ _ _ _ => ?_
  refine (gaining_enteredFunction _ _).bind fun callee? _ _ _ => ?_
  cases callee? with
  | none => exact gaining_pure none
  | some callee => exact (gaining_noteCaller callee).bind_pure _

end Calls

/-! ### All instructions -/

theorem gaining_analyzeOpcode (hsite : (d.graph.item site).isOpcodeItem = true) (opcode : Opcode) :
    Gaining func (analyzeOpcode func stop site opcode) d := by
  cases opcode with
  | exitOp => exact (gaining_replaceByStatement hsite _).bind_pure none
  | calli => exact (gaining_addIntrinsicCall hsite).bind_pure none
  | call => exact gaining_addLocalCall hsite
  | sto => exact (gaining_addStore hsite).bind_pure none
  | pushiEff => exact (gaining_addVariable hsite).bind_pure none
  | pushi =>
    refine gaining_get_bind ?_
    dsimp only
    split
    · exact (gaining_addImmediate hsite).bind_pure none
    · exact gaining_pure none
  | _ => first | exact (gaining_addOperation hsite _).bind_pure none | exact gaining_pure none

theorem gaining_analyzeItem (id : ItemId) : Gaining func (analyzeItem func stop id) d := by
  refine gaining_get_bind ?_
  dsimp only
  split
  · exact gaining_pure none
  · rename_i opcode hopcode
    have hsite : (d.graph.item id).isOpcodeItem = true := by
      split at hopcode
      · cases hopcode
      · exact Item.isOpcodeItem_of_opcode? hopcode
    split
    · exact (gaining_addElement hsite).bind_pure none
    · split
      · exact (gaining_addReturn hsite).bind_pure none
      · exact gaining_analyzeOpcode hsite opcode

theorem gaining_foldlM (func : Nat) (stop : ItemId) (ids : List ItemId) (callees : List Nat) :
    Gaining func (ids.foldlM (analyzeNext func stop) callees) d := by
  induction ids generalizing callees d with
  | nil => exact gaining_pure callees
  | cons id rest ih =>
    rw [List.foldlM_cons]
    exact ((gaining_analyzeItem id).bind fun _ _ _ _ => gaining_pure _).bind fun _ _ _ _ => ih _

/-- The analysis of a function puts leaves into it. -/
theorem gaining_analyze (func : Nat) (d : Decompilation) : Gaining func (analyze func) d :=
  gaining_get_bind (gaining_foldlM func _ _ _)

end Pass

end Parley
