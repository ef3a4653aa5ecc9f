import Parley.Proofs.Decompile.Operand
import Parley.Proofs.Decompile.Phase
set_option autoImplicit false

/-!
# The consumption of operands

A combination is a sequence of turns, one for each operation of the function that is open.  A turn consumes the
open expressions nearest before the operation, as many as it needs, and puts one item in their place.  What it
has consumed is marked, so no later turn consumes it again.
-/

namespace Parley

open Fallible

/-- Whether the fault is that an operation finds too few expressions. -/
def DecompileFault.isShortage : DecompileFault → Bool
  | .operandCountMismatch _ _ _ => true
  | _ => false

/-! ## Faults -/

namespace Pass

variable {α β : Type}

/-- A pass never faults for want of expressions. -/
def Supplied (x : Pass α) : Prop := FaultsWith (fun fault => fault.isShortage = false) x

theorem supplied_pure (a : α) : Supplied (pure a) := (safe_pure a).faultsWith _

theorem supplied_of_ok {x : Pass α} (h : ∀ d, ∃ a d', x d = .ok a d') : Supplied x := by
  intro d fault d' herror
  obtain ⟨a, d₁, hok⟩ := h d
  rw [hok] at herror
  cases herror

theorem supplied_get_bind {f : Decompilation → Pass α} (h : ∀ d, Supplied (f d)) : Supplied (get >>= f) :=
  fun d => h d d

theorem supplied_when {c : Prop} [Decidable c] {x : Pass PUnit} {f : PUnit → Pass β} (hx : Supplied x)
    (hf : ∀ a, Supplied (f a)) : Supplied (if c then x >>= f else f ⟨⟩) := by
  split
  · exact FaultsWith.bind hx hf
  · exact hf ⟨⟩

theorem supplied_expression (id : ItemId) : Supplied (expression id) := supplied_of_ok fun _ => ⟨_, _, rfl⟩

theorem supplied_operand (operands : Operands) (index : Nat) : Supplied (operand operands index) :=
  supplied_of_ok fun _ => ⟨_, _, rfl⟩

theorem supplied_addressOf (id : ItemId) : Supplied (addressOf id) := by
  refine FaultsWith.bind (supplied_expression id) fun value => ?_
  dsimp only
  split
  · exact FaultsWith.bind (supplied_of_ok fun _ => ⟨_, _, rfl⟩) fun _ => supplied_expression id
  · exact supplied_expression id

theorem supplied_refuse (pos : UInt16) (before text behind : String) :
    Supplied (refuse pos before text behind : Pass α) := faultsWith_throw rfl

theorem supplied_requireValue (pos : UInt16) (value : Expr) : Supplied (requireValue pos value) := by
  unfold requireValue
  split
  · exact supplied_refuse pos _ _ _
  · exact supplied_pure _

theorem supplied_addExpression (site : ItemId) (expression : Expr) : Supplied (addExpression site expression) :=
  supplied_of_ok fun _ => ⟨_, _, rfl⟩

theorem supplied_replaceByStatement (site : ItemId) (statement : Statement) :
    Supplied (replaceByStatement site statement) := supplied_of_ok fun _ => ⟨_, _, rfl⟩

theorem supplied_inlineLocal (func : Nat) (id : ItemId) (type : DataType) :
    Supplied (inlineLocal func id type) := by
  refine supplied_get_bind fun d => ?_
  dsimp only
  split
  · exact supplied_pure _
  · split
    · split <;> exact supplied_of_ok fun _ => ⟨_, _, rfl⟩
    · exact supplied_pure _

theorem supplied_arguments (func : Nat) (types : List DataType) (ids : List ItemId) :
    Supplied (arguments func types ids) := by
  induction ids generalizing types with
  | nil => exact supplied_pure []
  | cons id rest ih =>
    refine FaultsWith.bind (FaultsWith.bind (supplied_expression id) fun value => ?_) fun text => ?_
    · exact supplied_when (supplied_inlineLocal func id _) fun _ =>
        FaultsWith.bind (supplied_addressOf id) fun _ => supplied_pure _
    · exact FaultsWith.bind (ih types.tail) fun _ => supplied_pure _

theorem supplied_calledName (pos : UInt16) (operation : Operation) : Supplied (calledName pos operation) := by
  unfold calledName
  split
  · refine supplied_get_bind fun d => ?_
    split
    · exact faultsWith_throw rfl
    · exact supplied_pure _
  · exact supplied_of_ok fun _ => ⟨_, _, rfl⟩

theorem supplied_combineCall (func : Nat) (site : ItemId) (pos : UInt16) (operation : Operation)
    (operands : Operands) : Supplied (combineCall func site pos operation operands) := by
  refine FaultsWith.bind (supplied_calledName pos operation) fun name => ?_
  refine FaultsWith.bind (supplied_arguments func _ _) fun texts => ?_
  dsimp only
  split
  · exact supplied_addExpression site _
  · exact supplied_replaceByStatement site _

theorem supplied_combineSay (site : ItemId) (pos : UInt16) (operands : Operands) :
    Supplied (combineSay site pos operands) := by
  refine FaultsWith.bind (supplied_operand operands 0) fun value => ?_
  dsimp only
  split
  · exact faultsWith_throw rfl
  · refine supplied_get_bind fun d => ?_
    split
    · exact faultsWith_throw rfl
    · exact supplied_replaceByStatement site _

/-- With its operands at hand an operation is combined, or refused for another reason. -/
theorem supplied_combineKind (func : Nat) (id site : ItemId) (pos : UInt16) (operation : Operation)
    (operands : Operands) : Supplied (combineKind func id site pos operation operands) := by
  have hvalue (value : Expr) {f : PUnit → Pass ItemId} (hf : ∀ a, Supplied (f a)) :
      Supplied (requireValue pos value >>= f) := FaultsWith.bind (supplied_requireValue pos value) hf
  have hrefuse (before text behind : String) {c : Prop} [Decidable c] {f : PUnit → Pass ItemId}
      (hf : ∀ a, Supplied (f a)) : Supplied (if c then refuse pos before text behind >>= f else f ⟨⟩) :=
    supplied_when (supplied_refuse pos _ _ _) hf
  have hunary (opcode : Opcode) : Supplied (combineUnary site pos opcode operands) :=
    FaultsWith.bind (supplied_operand operands 0) fun value => hvalue _ fun _ => supplied_addExpression site _
  unfold combineKind
  split
  · exact supplied_combineCall func site pos operation operands
  · exact supplied_combineCall func site pos operation operands
  · exact FaultsWith.bind (supplied_operand operands 0) fun _ => supplied_replaceByStatement site _
  · exact supplied_combineSay site pos operands
  · refine FaultsWith.bind (supplied_operand operands 0) fun address => ?_
    exact FaultsWith.bind (supplied_addressOf _) fun place => hrefuse _ _ _ fun _ => supplied_addExpression site _
  · refine FaultsWith.bind (supplied_operand operands 0) fun base => ?_
    refine FaultsWith.bind (supplied_addressOf _) fun place => ?_
    refine FaultsWith.bind (supplied_operand operands 1) fun index => ?_
    exact hrefuse _ _ _ fun _ => hrefuse _ _ _ fun _ => supplied_addExpression site _
  · refine FaultsWith.bind (supplied_operand operands 0) fun last => ?_
    refine FaultsWith.bind (supplied_operand operands 1) fun first => ?_
    refine FaultsWith.bind (supplied_addressOf _) fun target => ?_
    refine FaultsWith.bind (supplied_expression _) fun value => supplied_get_bind fun d => ?_
    exact hrefuse _ _ _ fun _ => hrefuse _ _ _ fun _ => supplied_replaceByStatement site _
  · exact hunary _
  · exact hunary _
  · refine FaultsWith.bind (supplied_operand operands 0) fun second => ?_
    refine FaultsWith.bind (supplied_operand operands 1) fun first => ?_
    exact hvalue _ fun _ => hvalue _ fun _ => supplied_addExpression site _

end Pass

/-! ## Turns -/

/-- The operation that an item is, if nothing has replaced it. -/
def Item.openOperation? (item : Item) : Option Operation :=
  if item.processed then none else item.operation?

theorem Item.operation?_of_openOperation? {item : Item} {operation : Operation}
    (h : item.openOperation? = some operation) : item.operation? = some operation := by
  unfold openOperation? at h
  split at h
  · cases h
  · exact h

/-- What becomes of one operation. -/
structure Turn where
  /-- The item of the operation. -/
  id : ItemId
  operation : Operation
  /-- The expressions it consumes, the one nearest before it first. -/
  operands : List ItemId
  /-- The stores that become comments. -/
  stores : List ItemId
  /-- The item that the result is put before. -/
  site : ItemId
  /-- What the operation leaves. -/
  result : ItemId

namespace Decompilation

variable {d d₁ d' : Decompilation} {func : Nat} {t : Turn}

/-- A turn of the function `func`: an open operation takes the open expressions nearest before it, as many as it
needs, and leaves one item.  The operation and its operands are marked, for a call some stores become comments,
and no other item changes.  The result stands before the earliest operand if no statement lies between that and
the operation, otherwise before the operation. -/
structure Consumes (d : Decompilation) (func : Nat) (t : Turn) (d' : Decompilation) : Prop where
  isOpen : (d.graph.item t.id).openOperation? = some t.operation
  enough : t.operation.needed ≤ (d.graph.openBefore (d.bounds func).1 t.id).length
  operands : t.operands = (d.graph.openBefore (d.bounds func).1 t.id).take t.operation.needed
  marked : ∀ id ∈ t.id :: t.operands, (d'.graph.item id).processed = true
  stores : ∀ store ∈ t.stores, t.operation.isCall = true ∧ (∃ id ∈ t.operands, d.Inlines func id store) ∧
    d'.graph.item store = (d.graph.item store).inlined
  others : ∀ id < d.graph.size, id ∉ t.id :: t.operands → id ∉ t.stores →
    d'.graph.item id = d.graph.item id
  site : t.site = t.id ∨ t.operands.getLast? = some t.site ∧ ∀ id, Precedes d.graph.order t.site id →
    Precedes d.graph.order id t.id → (d.graph.item id).statement? = none
  result : t.result = d.graph.size
  size : d'.graph.size = d.graph.size + 1
  order : d'.graph.order = Graph.placeBefore t.result t.site d.graph.order
  made : (d'.graph.item t.result).processed = false ∧
    (d'.graph.item t.result).expression?.isSome = t.operation.leavesExpression ∧
    (d'.graph.item t.result).statement?.isSome = !t.operation.leavesExpression
  advances : d.Advances [] d'

end Decompilation

namespace Pass

variable {d d' : Decompilation} {func : Nat} {id : ItemId} {operation : Operation}

theorem collectOperands_of_lt {start : ItemId} {needed : Nat}
    (h : (d.graph.openBefore start id).length < needed) : collectOperands start id needed d =
      .error (.operandCountMismatch (d.graph.item id).pos needed (d.graph.openBefore start id).length) d := by
  have hlength : (d.graph.takeOperands needed (d.graph.backBetween start id)).ids.length =
      (d.graph.openBefore start id).length := by
    rw [Graph.ids_takeOperands, List.length_take]
    exact Nat.min_eq_right (Nat.le_of_lt h)
  unfold collectOperands
  rw [bind_of_ok (get_apply d)]
  dsimp only
  rw [hlength, if_pos h]
  rfl

theorem collectOperands_of_le {start : ItemId} {needed : Nat}
    (h : needed ≤ (d.graph.openBefore start id).length) : collectOperands start id needed d =
      .ok (d.graph.takeOperands needed (d.graph.backBetween start id)) d := by
  have hlength : (d.graph.takeOperands needed (d.graph.backBetween start id)).ids.length = needed := by
    rw [Graph.ids_takeOperands, List.length_take]
    exact Nat.min_eq_left h
  unfold collectOperands
  rw [bind_of_ok (get_apply d)]
  dsimp only
  rw [if_neg (by rw [hlength]; exact Nat.lt_irrefl _)]
  rfl

/-- An operation with too few open expressions before it faults, and nothing has changed. -/
theorem combineOperation_of_lt (h : (d.graph.openBefore (d.bounds func).1 id).length < operation.needed) :
    combineOperation func id operation d = .error (.operandCountMismatch (d.graph.item id).pos operation.needed
      (d.graph.openBefore (d.bounds func).1 id).length) d := by
  unfold combineOperation
  rw [bind_of_ok (get_apply d)]
  exact bind_of_error (collectOperands_of_lt h)

/-- With enough open expressions before it an operation faults for other reasons only. -/
theorem supplied_combineOperation {fault : DecompileFault}
    (h : operation.needed ≤ (d.graph.openBefore (d.bounds func).1 id).length)
    (hfault : combineOperation func id operation d = .error fault d') : fault.isShortage = false := by
  unfold combineOperation at hfault
  rw [bind_of_ok (get_apply d), bind_of_ok (collectOperands_of_le h)] at hfault
  refine FaultsWith.bind (supplied_combineKind func _ _ _ _ _) (fun combined => ?_) d fault d' hfault
  dsimp only
  split <;> exact supplied_of_ok fun _ => ⟨_, _, rfl⟩

/-! ### Labels -/

/-- At most labels differ, those of operands and of the result. -/
structure Relabels (ids : List ItemId) (combined : ItemId) (g g' : Graph) : Prop where
  order : g'.order = g.order
  size : g'.size = g.size
  others : ∀ id, id ∉ ids → id ≠ combined → g'.item id = g.item id
  state : ∀ id, (g'.item id).processed = (g.item id).processed ∧ (g'.item id).kind = (g.item id).kind

theorem Relabels.refl (ids : List ItemId) (combined : ItemId) (g : Graph) : Relabels ids combined g g :=
  ⟨rfl, rfl, fun _ _ _ => rfl, fun _ => ⟨rfl, rfl⟩⟩

theorem moveLabel_keeps {α : Type} {p : Item → α}
    (hp : ∀ (item : Item) (label : Option String) (count : Nat), p { item with label, xrefCount := count } = p item)
    (earliest combined : ItemId) (g : Graph) (other : ItemId) :
    p ((moveLabel earliest combined g).item other) = p (g.item other) := by
  unfold moveLabel
  dsimp only
  split
  · exact (Graph.modify_keeps (fun item => hp item _ _) _ _ _).trans
      (Graph.modify_keeps (fun item => hp item none 0) _ _ _)
  · rfl

theorem relabels_moveLabel {ids : List ItemId} {earliest : ItemId} (hearliest : earliest ∈ ids)
    (combined : ItemId) (g : Graph) : Relabels ids combined g (moveLabel earliest combined g) := by
  have hstate (id : ItemId) : ((moveLabel earliest combined g).item id).processed = (g.item id).processed ∧
      ((moveLabel earliest combined g).item id).kind = (g.item id).kind :=
    ⟨moveLabel_keeps (fun _ _ _ => rfl) earliest combined g id,
      moveLabel_keeps (fun _ _ _ => rfl) earliest combined g id⟩
  unfold moveLabel at hstate ⊢
  dsimp only at hstate ⊢
  split
  · rename_i hmoves
    rw [if_pos hmoves] at hstate
    refine ⟨rfl, ?_, fun id hid hne => ?_, hstate⟩
    · rw [Graph.size_modify, Graph.size_modify]
    · rw [Graph.item_modify_of_ne hne, Graph.item_modify_of_ne (ne_of_mem_of_not_mem hearliest hid).symm]
  · exact .refl ids combined g

/-! ### A turn -/

/-- What a combined operation does: it builds its result, moves a label and marks itself and its operands. -/
theorem combineOperation_eq_ok (hzero : (d.graph.item 0).expression? = none) (hd : d.graph.Ordered)
    (henough : operation.needed ≤ (d.graph.openBefore (d.bounds func).1 id).length)
    (h : combineOperation func id operation d = .ok () d') :
    let operands := d.graph.takeOperands operation.needed (d.graph.backBetween (d.bounds func).1 id)
    ∃ combined d₁ g, Builds d func operation operands.ids (operands.site id) combined d₁ ∧
      Relabels operands.ids combined d₁.graph g ∧
      d' = d₁.onGraph fun _ => g.modifyAll (id :: operands.ids) Item.markProcessed := by
  intro operands
  have hids : operands.ids = (d.graph.openBefore (d.bounds func).1 id).take operation.needed :=
    Graph.ids_takeOperands d.graph _ _
  have hopen (other : ItemId) (hother : other ∈ operands.ids) : (d.graph.item other).statement? = none :=
    (Graph.site_of_isOpenExpression (Graph.isOpenExpression_of_mem_takeOperands hother)).statement
  unfold combineOperation at h
  rw [bind_of_ok (get_apply d), bind_of_ok (collectOperands_of_le henough)] at h
  obtain ⟨combined, d₁, hkind, h⟩ := bind_eq_ok.1 h
  have hbuilds := builds_combineKind hzero (hids ▸ (Graph.nodup_openBefore hd).take) hopen hkind
  cases hearliest : operands.earliest? with
  | none =>
    rw [hearliest] at h
    cases h
    exact ⟨combined, d₁, d₁.graph, hbuilds, .refl _ _ _, rfl⟩
  | some earliest =>
    rw [hearliest] at h
    cases h
    exact ⟨combined, d₁, _, hbuilds, relabels_moveLabel (List.mem_of_getLast? hearliest) combined _, rfl⟩

/-- Where the result of an operation goes. -/
theorem site_spec (hd : d.graph.Ordered) (hid : id < d.graph.size) (start : ItemId) (needed : Nat) :
    let operands := d.graph.takeOperands needed (d.graph.backBetween start id)
    operands.site id = id ∨ operands.ids.getLast? = some (operands.site id) ∧
      ∀ other, Precedes d.graph.order (operands.site id) other → Precedes d.graph.order other id →
        (d.graph.item other).statement? = none := by
  intro operands
  unfold Operands.site
  cases hearliest : operands.earliest? with
  | none => exact Or.inl rfl
  | some earliest =>
    cases hcrosses : operands.crossesStatement with
    | true => exact Or.inl rfl
    | false =>
      obtain ⟨near, far, hsplit, hnear⟩ := Graph.of_crossesStatement_eq_false hearliest hcrosses
      exact Or.inr ⟨hearliest, fun other hbehind hbefore =>
        hnear other (Graph.mem_near hd hid hsplit hbehind hbefore)⟩

/-- An operation that is combined takes its turn. -/
theorem consumes_combineOperation (hd : d.graph.Sound) (hzero : (d.graph.item 0).expression? = none)
    (hopen : (d.graph.item id).openOperation? = some operation)
    (henough : operation.needed ≤ (d.graph.openBefore (d.bounds func).1 id).length)
    (h : combineOperation func id operation d = .ok () d') :
    ∃ t : Turn, t.id = id ∧ d.Consumes func t d' := by
  have hoperation := Item.operation?_of_openOperation? hopen
  have hadvances := (quiet_combineOperation func hoperation).of_ok hd h
  have hid := Graph.site_of_operation? hoperation
  have hsite := site_spec hd.ordered hid.lt_size (d.bounds func).1 operation.needed
  obtain ⟨combined, d₁, g, ⟨stores, d₀, hreads, hcall, hputs⟩, hrelabels, rfl⟩ :=
    combineOperation_eq_ok hzero hd.ordered henough h
  have hids := Graph.ids_takeOperands d.graph operation.needed (d.graph.backBetween (d.bounds func).1 id)
  generalize d.graph.takeOperands operation.needed (d.graph.backBetween (d.bounds func).1 id) = operands at *
  have hconsumed : ∀ other ∈ id :: operands.ids, d.graph.Site other := by
    refine List.forall_mem_cons.2 ⟨hid, fun other hother => ?_⟩
    rw [hids] at hother
    exact Graph.site_of_isOpenExpression (Graph.isOpenExpression_of_mem_openBefore (List.mem_of_mem_take hother))
  have hmem : operands.site id ∈ id :: operands.ids := by
    rcases hsite with hsite | ⟨hsite, -⟩
    · exact List.mem_cons.2 (Or.inl hsite)
    · exact List.mem_cons_of_mem _ (List.mem_of_getLast? hsite)
  -- The result is a new item, so the marks that come last leave it open.
  have hcombined : combined = d.graph.size := hputs.1.trans hreads.size
  have hnew : combined ∉ id :: operands.ids := fun hmem =>
    absurd (hconsumed combined hmem).lt_size (by rw [hcombined]; exact Nat.lt_irrefl _)
  have hitem (other : ItemId) (hlt : other < d.graph.size) (hother : other ∉ id :: operands.ids) :
      (g.modifyAll (id :: operands.ids) Item.markProcessed).item other = d₀.graph.item other := by
    rw [Graph.item_markAll_of_notMem _ hother, hrelabels.others other (fun hmem => hother (List.mem_cons_of_mem _ hmem))
      (hcombined ▸ Nat.ne_of_lt hlt)]
    exact hputs.item_of_ne (hreads.size ▸ hlt) fun heq => hother (heq ▸ hmem)
  refine ⟨⟨id, operation, operands.ids, stores, operands.site id, combined⟩, rfl, hopen, henough, hids, ?_, ?_, ?_,
    hsite, hcombined, ?_, ?_, ?_, hadvances⟩
  · intro other hother
    have hlt : other < g.size := by
      rw [hrelabels.size, hputs.size, hreads.size]
      exact Nat.lt_succ_of_lt (hconsumed other hother).lt_size
    exact congrArg Item.processed ((Graph.item_markAll g _ other).trans (if_pos ⟨hother, hlt⟩))
  · intro store hstore
    obtain ⟨hinlines, hinlined⟩ := hreads.stores store hstore
    have hlt : store < d.graph.size := by
      obtain ⟨_, -, hstatement⟩ := hinlines
      exact Graph.lt_size_of_kind fun hkind => hstatement.statement?_ne_none (by rw [Item.statement?, hkind])
    refine ⟨hcall (List.ne_nil_of_mem hstore), hinlines, (hitem store hlt fun hmem => ?_).trans hinlined⟩
    exact hreads.notMem_stores (hconsumed store hmem).statement hstore
  · intro other hlt hother hstore
    exact (hitem other hlt hother).trans
      (hreads.others other (fun hmem => hother (List.mem_cons_of_mem _ hmem)) hstore)
  · exact (Graph.size_markAll g _).trans (hrelabels.size.trans (hputs.size.trans (congrArg (· + 1) hreads.size)))
  · refine (Graph.order_markAll g _).trans (hrelabels.order.trans (hputs.order.trans ?_))
    rw [hreads.order]
  · obtain ⟨hprocessed, hkind⟩ := hrelabels.state combined
    have hmade := hputs.made
    unfold Item.expression? Item.statement? at hmade ⊢
    simp only [Decompilation.onGraph, Graph.item_markAll_of_notMem _ hnew, hprocessed, hkind]
    exact hmade

end Pass

/-! ## Runs -/

namespace Item

theorem Kept.operation? {old new : Item} (h : old.Kept new) : new.operation? = old.operation? := by
  have houtline := h.outline
  unfold Item.operation?
  cases hold : old.kind <;> cases hnew : new.kind <;> simp_all [ItemKind.outline]

/-- No item becomes an open operation. -/
theorem Kept.openOperation?_eq_none {old new : Item} (h : old.Kept new) (hnone : old.openOperation? = none) :
    new.openOperation? = none := by
  unfold openOperation? at hnone ⊢
  cases hprocessed : old.processed with
  | true => rw [h.processed hprocessed, if_pos rfl]
  | false =>
    rw [hprocessed, if_neg Bool.false_ne_true] at hnone
    rw [h.operation?, hnone, ite_self]

end Item

namespace Decompilation

variable {d d₁ d' : Decompilation} {func : Nat} {t : Turn} {turns front behind : List Turn} {id : ItemId}

/-- The operations of a function that nothing has replaced, in their order. -/
def openOperations (d : Decompilation) (func : Nat) : List ItemId :=
  (d.body func).filter fun id => (d.graph.item id).openOperation?.isSome

/-- The operands of the open operation that an item is. -/
def operandsOf (d : Decompilation) (func : Nat) (id : ItemId) : List ItemId :=
  (d.graph.openBefore (d.bounds func).1 id).take (((d.graph.item id).openOperation?.map (·.needed)).getD 0)

/-- The operands of operations that are combined one after the other. -/
def operandsInTurn (func : Nat) : List ItemId → Decompilation → List (List ItemId)
  | [], _ => []
  | id :: ids, d => d.operandsOf func id :: operandsInTurn func ids (final (Pass.combineItem func id d))

/-- Turns of the function `func` one after the other. -/
inductive Combines (func : Nat) : Decompilation → List Turn → Decompilation → Prop where
  | done (d : Decompilation) : Combines func d [] d
  | turn {d d₁ d' : Decompilation} {t : Turn} {turns : List Turn}
      (run : Pass.combineItem func t.id d = .ok () d₁) (h : d.Consumes func t d₁)
      (rest : Combines func d₁ turns d') : Combines func d (t :: turns) d'

namespace Consumes

variable (h : d.Consumes func t d')

include h

theorem lt_size : t.id < d.graph.size :=
  (Graph.site_of_operation? (Item.operation?_of_openOperation? h.isOpen)).lt_size

theorem isOpenExpression_of_mem {other : ItemId} (hother : other ∈ t.operands) :
    (d.graph.item other).isOpenExpression = true :=
  Graph.isOpenExpression_of_mem_openBefore (List.mem_of_mem_take (h.operands ▸ hother))

/-- The first item of the listing does not become an expression. -/
theorem expression?_zero (hzero : (d.graph.item 0).expression? = none) :
    (d'.graph.item 0).expression? = none := by
  rw [← Option.not_isSome_iff_eq_none, (h.advances.grows.kept 0 (Nat.zero_lt_of_lt h.lt_size)).expression, hzero]
  exact Bool.false_ne_true

/-- Apart from the operation itself a turn leaves the operations as they are. -/
theorem openOperation?_of_ne (hid : id < d.graph.size) (hne : id ≠ t.id) :
    (d'.graph.item id).openOperation? = (d.graph.item id).openOperation? := by
  have hkept := h.advances.grows.kept id hid
  by_cases hnone : (d.graph.item id).operation? = none
  · have hopen : (d.graph.item id).openOperation? = none := by rw [Item.openOperation?, hnone, ite_self]
    rw [hopen, hkept.openOperation?_eq_none hopen]
  · have hoperand : id ∉ t.operands := by
      intro hmem
      have hexpression := h.isOpenExpression_of_mem hmem
      unfold Item.isOpenExpression Item.expression? at hexpression
      unfold Item.operation? at hnone
      cases hkind : (d.graph.item id).kind <;> simp_all
    have hstore : id ∉ t.stores := by
      intro hmem
      obtain ⟨-, ⟨_, -, hinlines⟩, -⟩ := h.stores id hmem
      have hstatement := hinlines.statement?_ne_none
      unfold Item.statement? at hstatement
      unfold Item.operation? at hnone
      cases hkind : (d.graph.item id).kind <;> simp_all
    rw [h.others id hid (fun hmem => (List.mem_cons.1 hmem).elim hne hoperand) hstore]

end Consumes

namespace Combines

theorem append (h : Combines func d front d₁) (h' : Combines func d₁ behind d') :
    Combines func d (front ++ behind) d' := by
  induction h with
  | done d => exact h'
  | turn run h rest ih => exact .turn run h (ih h')

/-- Turns may be cut anywhere. -/
theorem exists_append (h : Combines func d (front ++ behind) d') :
    ∃ e, Combines func d front e ∧ Combines func e behind d' := by
  induction front generalizing d with
  | nil => exact ⟨d, .done d, h⟩
  | cons t rest ih =>
    cases h with
    | turn run h rest =>
      obtain ⟨e, hfront, hbehind⟩ := ih rest
      exact ⟨e, .turn run h hfront, hbehind⟩

/-- What happens around one of some turns. -/
theorem exists_turn (h : Combines func d (front ++ t :: behind) d') :
    ∃ e e', Combines func d front e ∧ Pass.combineItem func t.id e = .ok () e' ∧ e.Consumes func t e' ∧
      Combines func e' behind d' := by
  obtain ⟨e, hfront, hrest⟩ := h.exists_append
  cases hrest with
  | turn run h rest => exact ⟨e, _, hfront, run, h, rest⟩

/-- Turns determine what there is behind them. -/
theorem eq_foldl (h : Combines func d turns d') :
    d' = (turns.map (·.id)).foldl (fun d id => final (Pass.combineItem func id d)) d := by
  induction h with
  | done d => rfl
  | turn run h rest ih => rw [List.map_cons, List.foldl_cons, run, final_ok, ih]

theorem advances (h : Combines func d turns d') (hd : d.graph.Sound) : d.Advances [] d' := by
  induction h with
  | done d => exact Advances.refl hd
  | turn run h rest ih => exact h.advances.trans (ih h.advances.sound)

theorem expression?_zero (h : Combines func d turns d') (hzero : (d.graph.item 0).expression? = none) :
    (d'.graph.item 0).expression? = none := by
  induction h with
  | done d => exact hzero
  | turn run h rest ih => exact ih (h.expression?_zero hzero)

/-- The operands of turns can be computed from the listing. -/
theorem operands_eq (h : Combines func d turns d') :
    turns.map (·.operands) = operandsInTurn func (turns.map (·.id)) d := by
  induction h with
  | done d => rfl
  | @turn d d₁ d' t turns run h rest ih =>
    have hoperands : t.operands = d.operandsOf func t.id := by
      rw [operandsOf, h.isOpen, Option.map_some, Option.getD_some, h.operands]
    rw [List.map_cons, List.map_cons, operandsInTurn, run, final_ok, ih, hoperands]

/-- Turns number what they leave. -/
theorem results_eq (h : Combines func d turns d') :
    turns.map (·.result) = List.range' d.graph.size turns.length := by
  induction h with
  | done d => rfl
  | turn run h rest ih => rw [List.map_cons, ih, h.result, h.size, List.length_cons, List.range'_succ]

/-- What has been marked is consumed by no turn. -/
theorem notMem_operands (h : Combines func d turns d') (hid : id < d.graph.size)
    (hprocessed : (d.graph.item id).processed = true) : id ∉ turns.flatMap (·.operands) := by
  induction h with
  | done d => exact List.not_mem_nil
  | turn run h rest ih =>
    rw [List.flatMap_cons, List.mem_append, not_or]
    refine ⟨fun hmem => ?_, ih (h.advances.grows.lt_size hid) ((h.advances.grows.kept id hid).processed hprocessed)⟩
    have hopen := h.isOpenExpression_of_mem hmem
    rw [Item.isOpenExpression, hprocessed] at hopen
    cases hopen

/-- No item is consumed twice. -/
theorem nodup_operands (h : Combines func d turns d') (hd : d.graph.Ordered) :
    (turns.flatMap (·.operands)).Nodup := by
  induction h with
  | done d => exact List.nodup_nil
  | turn run h rest ih =>
    rw [List.flatMap_cons]
    refine List.nodup_append'.2 ⟨h.operands ▸ (Graph.nodup_openBefore hd).take, ih h.advances.sound.ordered, ?_⟩
    intro other hother
    have hsite := Graph.site_of_isOpenExpression (h.isOpenExpression_of_mem hother)
    exact rest.notMem_operands (h.advances.grows.lt_size hsite.lt_size)
      (h.marked other (List.mem_cons_of_mem _ hother))

/-- Operations that have had their turn are marked. -/
theorem processed (h : Combines func d turns d') (hd : d.graph.Sound) (hid : id ∈ turns.map (·.id)) :
    (d'.graph.item id).processed = true := by
  induction h with
  | done d => cases hid
  | turn run h rest ih =>
    rcases List.mem_cons.1 hid with rfl | hid
    · exact ((rest.advances h.advances.sound).grows.kept _ (h.advances.grows.lt_size h.lt_size)).processed
        (h.marked _ List.mem_cons_self)
    · exact ih h.advances.sound hid

/-- What the turns leave is no operation. -/
theorem openOperation?_of_size_le (h : Combines func d turns d') (hd : d.graph.Sound) (hid : d.graph.size ≤ id) :
    (d'.graph.item id).openOperation? = none := by
  induction h with
  | done d => rw [Graph.item_of_size_le hid]; rfl
  | @turn d d₁ d' t turns run h rest ih =>
    rcases Nat.lt_or_ge id d₁.graph.size with hlt | hge
    · have hnew : id = t.result :=
        (Nat.le_antisymm (Nat.le_of_lt_succ (Nat.lt_of_lt_of_eq hlt h.size)) hid).trans h.result.symm
      refine ((rest.advances h.advances.sound).grows.kept id hlt).openOperation?_eq_none ?_
      have hmade := h.made
      subst hnew
      unfold Item.openOperation? Item.operation?
      unfold Item.expression? Item.statement? at hmade
      cases hkind : (d₁.graph.item t.result).kind <;> simp_all
    · exact ih h.advances.sound hge

end Combines

end Decompilation

namespace Pass

variable {d : Decompilation}

/-- How the combination of items goes: turns are taken for the open operations among them, either for all, or for
those before one that faults.  That one has too few open expressions before it, or it faults for another
reason. -/
inductive Combined (func : Nat) (d : Decompilation) (ids : List ItemId) :
    EStateM.Result DecompileFault Decompilation Unit → Prop where
  | done {turns : List Turn} {d' : Decompilation} (h : d.Combines func turns d')
      (hids : ids = turns.map (·.id)) : Combined func d ids (.ok () d')
  | short {turns : List Turn} {d' : Decompilation} {id : ItemId} {rest : List ItemId} {operation : Operation}
      (h : d.Combines func turns d') (hids : ids = turns.map (·.id) ++ id :: rest)
      (hopen : (d'.graph.item id).openOperation? = some operation)
      (hlt : (d'.graph.openBefore (d'.bounds func).1 id).length < operation.needed) :
      Combined func d ids (.error (.operandCountMismatch (d'.graph.item id).pos operation.needed
        (d'.graph.openBefore (d'.bounds func).1 id).length) d')
  | refused {turns : List Turn} {d' d'' : Decompilation} {id : ItemId} {rest : List ItemId}
      {fault : DecompileFault} (h : d.Combines func turns d') (hids : ids = turns.map (·.id) ++ id :: rest)
      (hfault : fault.isShortage = false) : Combined func d ids (.error fault d'')

theorem Combined.turn {func : Nat} {d d₁ : Decompilation} {t : Turn} {ids : List ItemId}
    {result : EStateM.Result DecompileFault Decompilation Unit}
    (run : combineItem func t.id d = .ok () d₁) (h : d.Consumes func t d₁)
    (h' : Combined func d₁ ids result) : Combined func d (t.id :: ids) result := by
  cases h' with
  | done hturns hids => exact .done (.turn run h hturns) (by rw [hids, List.map_cons])
  | short hturns hids hopen hlt =>
    exact .short (.turn run h hturns) (by rw [hids, List.map_cons, List.cons_append]) hopen hlt
  | refused hturns hids hfault =>
    exact .refused (.turn run h hturns) (by rw [hids, List.map_cons, List.cons_append]) hfault

/-- An item that is no open operation is passed over. -/
theorem combineItem_of_none {func : Nat} {id : ItemId} (h : (d.graph.item id).openOperation? = none) :
    combineItem func id d = .ok () d := by
  unfold combineItem
  rw [bind_of_ok (get_apply d)]
  unfold Item.openOperation? at h
  rw [h]
  rfl

theorem combineItem_of_some {func : Nat} {id : ItemId} {operation : Operation}
    (h : (d.graph.item id).openOperation? = some operation) :
    combineItem func id d = combineOperation func id operation d := by
  unfold combineItem
  rw [bind_of_ok (get_apply d)]
  unfold Item.openOperation? at h
  rw [h]

theorem combined_forM {func : Nat} {ids : List ItemId} (hd : d.graph.Sound)
    (hzero : (d.graph.item 0).expression? = none) (hids : ids.Nodup) (hlt : ∀ id ∈ ids, id < d.graph.size) :
    Combined func d (ids.filter fun id => (d.graph.item id).openOperation?.isSome)
      ((ids.forM (combineItem func) : Pass Unit) d) := by
  induction ids generalizing d with
  | nil => exact .done (.done d) rfl
  | cons id rest ih =>
    obtain ⟨hnew, hrest⟩ := List.nodup_cons.1 hids
    cases hopen : (d.graph.item id).openOperation? with
    | none =>
      rw [forM_cons_of_ok (combineItem_of_none hopen), List.filter_cons_of_neg (by simp [hopen])]
      exact ih hd hzero hrest fun other hother => hlt other (List.mem_cons_of_mem _ hother)
    | some operation =>
      rw [List.filter_cons_of_pos (by simp [hopen])]
      have hrun : combineItem func id d = combineOperation func id operation d := combineItem_of_some hopen
      rcases Nat.lt_or_ge (d.graph.openBefore (d.bounds func).1 id).length operation.needed with hshort | henough
      · have hfault := hrun.trans (combineOperation_of_lt hshort)
        rw [show ((id :: rest).forM (combineItem func) : Pass Unit) d = _ from bind_of_error hfault]
        exact .short (.done d) rfl hopen hshort
      · cases hresult : combineOperation func id operation d with
        | error fault d' =>
          rw [show ((id :: rest).forM (combineItem func) : Pass Unit) d = _ from
            bind_of_error (hrun.trans hresult)]
          exact .refused (.done d) rfl (supplied_combineOperation henough hresult)
        | ok _ d₁ =>
          obtain ⟨t, rfl, hturn⟩ := consumes_combineOperation hd hzero hopen henough hresult
          rw [forM_cons_of_ok (hrun.trans hresult)]
          have hsame : rest.filter (fun id => (d₁.graph.item id).openOperation?.isSome) =
              rest.filter fun id => (d.graph.item id).openOperation?.isSome :=
            List.filter_congr fun other hother => by
              rw [hturn.openOperation?_of_ne (hlt other (List.mem_cons_of_mem _ hother))
                (ne_of_mem_of_not_mem hother hnew)]
          rw [← hsame]
          exact .turn (hrun.trans hresult) hturn (ih hturn.advances.sound (hturn.expression?_zero hzero) hrest
            fun other hother => hturn.advances.grows.lt_size (hlt other (List.mem_cons_of_mem _ hother)))

end Pass

/-! ## The operations of a function -/

namespace Decompilation

variable {d d' : Decompilation} {func : Nat} {turns : List Turn}

/-- The boundary items of a function are items of the listing, unless that is empty. -/
theorem Well.bounds_lt (hd : d.Well) (func : Nat) (hsize : 0 < d.graph.size) :
    (d.bounds func).1 < d.graph.size ∧ (d.bounds func).2 < d.graph.size := by
  unfold bounds
  cases hinfo : d.functions[func]? with
  | none => exact ⟨hsize, hsize⟩
  | some info =>
    have hframe := (d.getElem?_frames func).trans (congrArg _ hinfo)
    have hfits := hd.fits info.frame (List.mem_of_getElem? hframe)
    exact ⟨(hfits.front_site hd.sound).lt_size, (hfits.back_site hd.sound).lt_size⟩

theorem sublist_openOperations (d : Decompilation) (func : Nat) :
    (d.openOperations func).Sublist d.graph.order := List.filter_sublist.trans (d.sublist_body func)

/-- When all open operations of a function have had their turn none is left. -/
theorem Combines.openOperations_eq_nil (hd : d.Well) (h : Combines func d turns d')
    (hall : d.openOperations func = turns.map (·.id)) : d'.openOperations func = [] := by
  have hadvances := h.advances hd.sound
  refine List.filter_eq_nil_iff.2 fun id hid hopen => ?_
  rw [Option.isSome_iff_ne_none] at hopen
  have hlt : id < d.graph.size := Nat.lt_of_not_le fun hge => hopen (h.openOperation?_of_size_le hd.sound hge)
  obtain ⟨hfront, hback⟩ := hd.bounds_lt func (Nat.zero_lt_of_lt hlt)
  have hbody : id ∈ d.body func := by
    have hbetween := hadvances.grows.extends.filter_between hd.sound.ordered hadvances.sound.ordered hfront hback
    change id ∈ d.graph.between (d.bounds func).1 (d.bounds func).2
    change id ∈ d'.graph.between (d'.bounds func).1 (d'.bounds func).2 at hid
    rw [hadvances.bounds] at hid
    rw [← hbetween]
    exact List.mem_filter.2 ⟨hid, decide_eq_true hlt⟩
  have hbefore : (d.graph.item id).openOperation?.isSome := by
    rw [Option.isSome_iff_ne_none]
    exact fun hnone => hopen ((hadvances.grows.kept id hlt).openOperation?_eq_none hnone)
  have hturn : id ∈ turns.map (·.id) := hall ▸ List.mem_filter.2 ⟨hbody, hbefore⟩
  rw [Item.openOperation?, h.processed hd.sound hturn, if_pos rfl] at hopen
  exact hopen rfl

end Decompilation

/-- No phase makes the first item of a listing an expression. -/
theorem expression?_zero_runPhases (image : Image) (strings : List String) (options : NamingOptions)
    (phases : List Phase) :
    ((runPhases phases (.ofImage image strings options)).graph.item 0).expression? = none := by
  have hlonger := ((Decompilation.well_ofImage image strings options).runPhases phases).longer
  rcases Nat.eq_zero_or_pos (Graph.ofCode image.code).size with hzero | hpos
  · rw [Graph.item_of_size_le (Nat.le_of_eq (hlonger.vacant hzero))]
    rfl
  · have hitem := (Graph.isOpcodeItem_eq_of_code (hlonger.code 0 hpos)).trans (Graph.isOpcodeItem_ofCode hpos)
    unfold Item.isOpcodeItem Item.opcodeItem? at hitem
    unfold Item.expression?
    cases hkind : ((runPhases phases (.ofImage image strings options)).graph.item 0).kind <;> simp_all

theorem Pass.combined_combine {d : Decompilation} (hd : d.Well) (func : Nat)
    (hzero : (d.graph.item 0).expression? = none) :
    Combined func d (d.openOperations func) (combine func d) := by
  have hsub := d.sublist_body func
  exact combined_forM hd.sound hzero (hd.sound.ordered.nodup.sublist hsub) fun id hid =>
    hd.sound.ordered.lt_of_mem (hsub.subset hid)

/-- Operands are consumed linearly, whatever phases have been run.  The combination of a function takes turns,
and no item is consumed twice.  If it succeeds each open operation has had its turn, in the order of the listing,
and none is left.  If it faults those before one have had theirs; and if that one has too few operands the
listing is as the turns have left it, and the fault tells how many open expressions stand before the operation in
the function, which are fewer than it needs. -/
theorem consumes_linearly (image : Image) (strings : List String) (options : NamingOptions)
    (phases : List Phase) (func : Nat) :
    let d := runPhases phases (.ofImage image strings options)
    ∃ turns d₁, d.Combines func turns d₁ ∧ (turns.map (·.id)).Nodup ∧ (turns.flatMap (·.operands)).Nodup ∧
      match Pass.combine func d with
      | .ok _ d' => d' = d₁ ∧ d.openOperations func = turns.map (·.id) ∧ d'.openOperations func = []
      | .error fault d' => ∃ id rest, d.openOperations func = turns.map (·.id) ++ id :: rest ∧
          ∀ pos needed found, fault = .operandCountMismatch pos needed found →
            d' = d₁ ∧ (∃ operation, (d'.graph.item id).openOperation? = some operation ∧
              operation.needed = needed) ∧ (d'.graph.item id).pos = pos ∧
            found = (d'.graph.openBefore (d'.bounds func).1 id).length ∧ found < needed := by
  intro d
  have hd : d.Well := ((Decompilation.well_ofImage image strings options).runPhases phases).well
  have hcombined := Pass.combined_combine hd func (expression?_zero_runPhases image strings options phases)
  have hnodup := hd.sound.ordered.nodup.sublist (d.sublist_openOperations func)
  generalize Pass.combine func d = result at hcombined ⊢
  cases hcombined with
  | @done turns d' h hids =>
    exact ⟨turns, d', h, hids ▸ hnodup, h.nodup_operands hd.sound.ordered, rfl, hids,
      h.openOperations_eq_nil hd hids⟩
  | @short turns d' id rest operation h hids hopen hlt =>
    refine ⟨turns, d', h, (List.nodup_append.1 (hids ▸ hnodup)).1, h.nodup_operands hd.sound.ordered, id, rest,
      hids, fun pos needed found hfault => ?_⟩
    cases hfault
    exact ⟨rfl, ⟨operation, hopen, rfl⟩, rfl, rfl, hlt⟩
  | @refused turns d₁ d' id rest fault h hids hfault =>
    refine ⟨turns, d₁, h, (List.nodup_append.1 (hids ▸ hnodup)).1, h.nodup_operands hd.sound.ordered, id, rest,
      hids, fun pos needed found hshort => ?_⟩
    rw [hshort] at hfault
    cases hfault

end Parley
