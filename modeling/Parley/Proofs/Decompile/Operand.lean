import Parley.Proofs.Decompile.Combination
set_option autoImplicit false

/-!
# Operands and results

The operands of an operation are the open expressions nearest before it.  To read them may turn a number into the
name of a global, and for a call also a store into a comment; nothing else of the listing changes before the
result of the operation takes its place.
-/

namespace Parley

open Fallible

/-- Whether the operation is a call. -/
def Operation.isCall (operation : Operation) : Bool :=
  operation.opcode = .call || operation.opcode = .calli

/-- Whether what an operation leaves is an expression: a call says so itself. -/
def Operation.leavesExpression (operation : Operation) : Bool :=
  match operation.opcode with
  | .call | .calli => operation.yieldsExpression
  | .saveReg | .sayOp | .sto => false
  | _ => true

/-- The store as a comment. -/
def Item.inlined (item : Item) : Item :=
  (item.withText (Pass.commented ((item.statement?.map (·.text)).getD ""))).markProcessed

theorem Item.statement?_inlined {item : Item} {statement : Statement} (h : item.statement? = some statement) :
    item.inlined.statement? = some { statement with text := Pass.commented statement.text } := by
  obtain ⟨_, _, _, _, kind⟩ := item
  cases kind with
  | statement old =>
    cases h
    rfl
  | _ => cases h

/-! ## Operands -/

namespace Graph

variable {g : Graph} {start id : ItemId} {needed : Nat} {ids : List ItemId}

/-- The expressions before an item that nothing has consumed, back to the item `start`, nearest first. -/
def openBefore (g : Graph) (start id : ItemId) : List ItemId :=
  (g.backBetween start id).filter fun other => (g.item other).isOpenExpression

theorem ids_takeOperands (g : Graph) (needed : Nat) (ids : List ItemId) :
    (g.takeOperands needed ids).ids =
      (ids.filter fun other => (g.item other).isOpenExpression).take needed := by
  induction ids generalizing needed with
  | nil => cases needed <;> simp [takeOperands]
  | cons id rest ih =>
    cases needed with
    | zero => simp [takeOperands]
    | succ needed =>
      rw [takeOperands, List.filter_cons]
      split
      · rw [List.take_succ_cons]
        exact congrArg _ (ih needed)
      · exact ih (needed + 1)

/-- Where operands cross no statement there is none before the last of them. -/
theorem of_crossesStatement_eq_false {earliest : ItemId}
    (hlast : (g.takeOperands needed ids).earliest? = some earliest)
    (h : (g.takeOperands needed ids).crossesStatement = false) :
    ∃ near far, ids = near ++ earliest :: far ∧ ∀ other ∈ near, (g.item other).statement? = none := by
  induction ids generalizing needed with
  | nil => cases needed <;> cases hlast
  | cons id rest ih =>
    cases needed with
    | zero => cases hlast
    | succ needed =>
      rw [takeOperands] at hlast h
      split at hlast
      · rename_i hopen
        rw [if_pos hopen] at h
        have hid : (g.item id).statement? = none := (site_of_isOpenExpression hopen).statement
        unfold Operands.earliest? at hlast
        cases hothers : (g.takeOperands needed rest).ids with
        | nil =>
          obtain rfl : id = earliest := by simpa [hothers] using hlast
          exact ⟨[], rest, rfl, fun _ hmem => absurd hmem List.not_mem_nil⟩
        | cons next others =>
          have hlast' : (g.takeOperands needed rest).earliest? = some earliest := by
            rwa [Operands.earliest?, hothers, ← List.getLast?_cons_cons (a := id), ← hothers]
          obtain ⟨near, far, rfl, hnear⟩ := ih hlast' h
          exact ⟨id :: near, far, rfl, List.forall_mem_cons.2 ⟨hid, hnear⟩⟩
      · rename_i hopen
        rw [if_neg hopen, Bool.or_eq_false_iff] at h
        obtain ⟨near, far, rfl, hnear⟩ := ih hlast h.1
        exact ⟨id :: near, far, rfl, List.forall_mem_cons.2 ⟨by simpa using h.2, hnear⟩⟩

/-- What stands between an operand and the operation is passed on the way back to the operand. -/
theorem mem_near {earliest other : ItemId} {near far : List ItemId} (hg : g.Ordered) (hid : id < g.size)
    (h : g.backBetween start id = near ++ earliest :: far) (hbehind : Precedes g.order earliest other)
    (hbefore : Precedes g.order other id) : other ∈ near := by
  obtain ⟨front, behind, horder, hfront, -⟩ := hg.split hid
  obtain ⟨more, hmore⟩ : g.backBetween start id <+: front.reverse := by
    rw [backBetween, before_split horder hfront]
    exact List.takeWhile_prefix _
  have hnodup := horder ▸ hg.nodup
  have hmem := (precedes_split_left hnodup).1 (horder ▸ hbefore)
  rw [h, List.append_assoc, List.cons_append] at hmore
  have hsplit : front = (far ++ more).reverse ++ earliest :: near.reverse := by
    rw [← List.reverse_reverse front, ← hmore]
    simp
  have horder' : g.order = (far ++ more).reverse ++ earliest :: (near.reverse ++ id :: behind) := by
    rw [horder, hsplit, List.append_assoc, List.cons_append]
  rw [horder', precedes_split_right (horder' ▸ hg.nodup)] at hbehind
  rcases List.mem_append.1 hbehind with hnear | hrest
  · exact List.mem_reverse.1 hnear
  · exact absurd rfl ((List.nodup_append.1 hnodup).2.2 other hmem other hrest)

theorem nodup_backBetween (hg : g.Ordered) : (g.backBetween start id).Nodup := by
  rw [backBetween, before_eq]
  exact ((List.nodup_reverse.2 (hg.nodup.sublist (List.takeWhile_sublist _))).sublist
    (List.takeWhile_sublist _))

theorem isOpenExpression_of_mem_openBefore {other : ItemId} (h : other ∈ g.openBefore start id) :
    (g.item other).isOpenExpression = true := (List.mem_filter.1 h).2

theorem nodup_openBefore (hg : g.Ordered) : (g.openBefore start id).Nodup :=
  (nodup_backBetween hg).filter _

end Graph

/-! ## Reading operands -/

namespace Decompilation

variable {d d₁ d' : Decompilation} {func : Nat} {ids stores : List ItemId}

/-- An item is a store, in front of an operand and in its function, into the local variable whose address the
operand is. -/
structure Inlines (d : Decompilation) (func : Nat) (operand store : ItemId) : Prop where
  address : (d.expression operand).isAddress = true
  isLocal : beginsWith Pass.localMark (d.expression operand).text = true
  within : store ∈ d.graph.backBetween (d.bounds func).1 operand
  text : ∃ statement, (d.graph.item store).statement? = some statement ∧
    ((d.expression operand).text ++ Pass.storeMark).toList <+: statement.text.toList

/-- Operands have been read, which may have changed them, and stores for them have become comments. -/
structure Reads (d : Decompilation) (func : Nat) (ids stores : List ItemId) (d' : Decompilation) : Prop where
  frames : d'.frames = d.frames
  order : d'.graph.order = d.graph.order
  size : d'.graph.size = d.graph.size
  others : ∀ id, id ∉ ids → id ∉ stores → d'.graph.item id = d.graph.item id
  operands : ∀ id ∈ ids, (d.graph.item id).statement? = none → (d'.graph.item id).statement? = none
  stores : ∀ store ∈ stores, (∃ id ∈ ids, d.Inlines func id store) ∧
    d'.graph.item store = (d.graph.item store).inlined

theorem Reads.refl (d : Decompilation) (func : Nat) (ids : List ItemId) : d.Reads func ids [] d :=
  ⟨rfl, rfl, rfl, fun _ _ _ => rfl, fun _ _ => id, fun _ h => absurd h List.not_mem_nil⟩

theorem Inlines.statement?_ne_none {id store : ItemId} (h : d.Inlines func id store) :
    (d.graph.item store).statement? ≠ none := by
  obtain ⟨statement, hstatement, -⟩ := h.text
  rw [hstatement]
  exact Option.some_ne_none statement

theorem Reads.notMem_stores {id : ItemId} (h : d.Reads func ids stores d') (hid : (d.graph.item id).statement? = none) :
    id ∉ stores := by
  intro hstore
  obtain ⟨⟨_, -, hinlines⟩, -⟩ := h.stores id hstore
  exact hinlines.statement?_ne_none hid

/-- Expressions that are not read stay. -/
theorem Reads.item_of_notMem {id : ItemId} (h : d.Reads func ids stores d') (hid : (d.graph.item id).statement? = none)
    (hnotMem : id ∉ ids) : d'.graph.item id = d.graph.item id :=
  h.others id hnotMem (h.notMem_stores hid)

/-- Operands may be read again. -/
theorem Reads.trans (h : d.Reads func ids stores d₁) (h' : d₁.Reads func ids [] d')
    (hids : ∀ id ∈ ids, (d.graph.item id).statement? = none) : d.Reads func ids stores d' where
  frames := h'.frames.trans h.frames
  order := h'.order.trans h.order
  size := h'.size.trans h.size
  others id hid hstore := (h'.others id hid List.not_mem_nil).trans (h.others id hid hstore)
  operands id hid := h'.operands id hid ∘ h.operands id hid
  stores store hstore := by
    obtain ⟨hinlines, hitem⟩ := h.stores store hstore
    refine ⟨hinlines, (h'.others store (fun hmem => ?_) List.not_mem_nil).trans hitem⟩
    exact h.notMem_stores (hids store hmem) hstore

theorem reads_withExpression {id : ItemId} (hid : id ∈ ids) (expression : Expr) :
    d.Reads func ids [] (d.onGraph (·.modify id (·.withExpression expression))) where
  frames := rfl
  order := rfl
  size := Graph.size_modify d.graph id _
  others other hother _ := Graph.item_modify_of_ne (ne_of_mem_of_not_mem hid hother).symm _
  operands other _ hother := by
    simp only [onGraph, Graph.item_modify]
    split
    · rfl
    · exact hother
  stores _ h := absurd h List.not_mem_nil

/-- What stands for an operand in an unchanged part of the listing stands for it in the whole. -/
theorem Reads.inlines {id store : ItemId} (h : d.Reads func ids stores d₁)
    (hid : d₁.graph.item id = d.graph.item id) (hstore : d₁.graph.item store = d.graph.item store)
    (hinlines : d₁.Inlines func id store) : d.Inlines func id store := by
  have hexpression : d₁.expression id = d.expression id := by rw [expression, hid, expression]
  have hwithin : d₁.graph.backBetween (d₁.bounds func).1 id = d.graph.backBetween (d.bounds func).1 id := by
    simp only [Graph.backBetween, Graph.before, h.order, bounds_congr h.frames]
  refine ⟨hexpression ▸ hinlines.address, hexpression ▸ hinlines.isLocal, hwithin ▸ hinlines.within, ?_⟩
  rw [← hexpression, ← hstore]
  exact hinlines.text

/-- A comment is no store into a local variable. -/
theorem not_inlines_inlined {id store : ItemId} {item : Item} {statement : Statement}
    (hstatement : item.statement? = some statement) (hitem : d.graph.item store = item.inlined) :
    ¬ d.Inlines func id store := by
  intro h
  obtain ⟨other, hother, rest, htext⟩ := h.text
  rw [hitem, Item.statement?_inlined hstatement, Option.some.injEq] at hother
  subst hother
  have hhead := congrArg List.head? htext
  rw [String.toList_append, List.append_assoc, List.head?_append,
    Pass.head?_of_beginsWith_localMark h.isLocal, Pass.commented, String.toList_append] at hhead
  exact absurd hhead (by simp)

/-- Operands are read one after the other. -/
theorem Reads.append {id : ItemId} {rest more : List ItemId} (h : d.Reads func [id] stores d₁)
    (h' : d₁.Reads func rest more d') (hnew : id ∉ rest)
    (hids : ∀ other ∈ id :: rest, (d.graph.item other).statement? = none) :
    d.Reads func (id :: rest) (stores ++ more) d' := by
  have hrest {other : ItemId} (hother : other ∈ rest) : d₁.graph.item other = d.graph.item other :=
    h.item_of_notMem (hids other (List.mem_cons_of_mem _ hother)) fun hmem => hnew (List.mem_singleton.1 hmem ▸ hother)
  have hnone {other : ItemId} (hother : other ∈ id :: rest) : (d₁.graph.item other).statement? = none := by
    rcases List.mem_cons.1 hother with rfl | hmem
    · exact h.operands other List.mem_cons_self (hids other hother)
    · exact (congrArg Item.statement? (hrest hmem)).trans (hids other hother)
  -- A store that an operand behind `id` makes a comment is none that `id` has made one.
  have hfresh {store : ItemId} (hstore : store ∈ more) : store ∉ stores := by
    intro hmem
    obtain ⟨⟨_, -, hinlines⟩, -⟩ := h'.stores store hstore
    obtain ⟨⟨_, -, hbefore⟩, hitem⟩ := h.stores store hmem
    obtain ⟨statement, hstatement, -⟩ := hbefore.text
    exact not_inlines_inlined hstatement hitem hinlines
  have hsame {other : ItemId} (hother : other ∉ id :: rest) (hstore : other ∉ stores) :
      d₁.graph.item other = d.graph.item other :=
    h.others other (fun hmem => hother (List.mem_singleton.1 hmem ▸ List.mem_cons_self)) hstore
  refine ⟨h'.frames.trans h.frames, h'.order.trans h.order, h'.size.trans h.size, ?_, ?_, ?_⟩
  · intro other hother hstore
    rw [List.mem_append, not_or] at hstore
    exact (h'.others other (fun hmem => hother (List.mem_cons_of_mem _ hmem)) hstore.2).trans
      (hsame hother hstore.1)
  · intro other hother _
    by_cases hmem : other ∈ rest
    · exact h'.operands other hmem (hnone hother)
    · rw [h'.item_of_notMem (hnone hother) hmem]
      exact hnone hother
  · intro store hstore
    rcases List.mem_append.1 hstore with hstore | hstore
    · obtain ⟨⟨other, hother, hinlines⟩, hitem⟩ := h.stores store hstore
      refine ⟨⟨other, List.mem_cons.2 (Or.inl (List.mem_singleton.1 hother)), hinlines⟩, ?_⟩
      rw [h'.others store (fun hmem => ?_) fun hmem => hfresh hmem hstore, hitem]
      exact h.notMem_stores (hids store (List.mem_cons_of_mem _ hmem)) hstore
    · obtain ⟨⟨other, hother, hinlines⟩, hitem⟩ := h'.stores store hstore
      have hstoreSame := hsame (fun hmem => h'.notMem_stores (hnone hmem) hstore) (hfresh hstore)
      exact ⟨⟨other, List.mem_cons_of_mem _ hother, h.inlines (hrest hother) hstoreSame hinlines⟩,
        hstoreSame ▸ hitem⟩

/-- A new item takes the place of `site`: an expression or a statement. -/
def Puts (d : Decompilation) (site : ItemId) (isExpression : Bool) (new : ItemId) (d' : Decompilation) : Prop :=
  new = d.graph.size ∧ ∃ (f : Item → Item) (item : Item),
    d' = d.onGraph (fun g => (g.modify site f).insertBefore site item) ∧ item.processed = false ∧
      item.expression?.isSome = isExpression ∧ item.statement?.isSome = !isExpression

section Puts

variable {site new : ItemId} {isExpression : Bool}

theorem Puts.frames (h : d.Puts site isExpression new d') : d'.frames = d.frames := by
  obtain ⟨-, f, item, rfl, -⟩ := h
  rfl

theorem Puts.order (h : d.Puts site isExpression new d') :
    d'.graph.order = Graph.placeBefore new site d.graph.order := by
  obtain ⟨rfl, f, item, rfl, -⟩ := h
  simp [onGraph]

theorem Puts.size (h : d.Puts site isExpression new d') : d'.graph.size = d.graph.size + 1 := by
  obtain ⟨-, f, item, rfl, -⟩ := h
  simp [onGraph]

theorem Puts.item_of_ne {id : ItemId} (h : d.Puts site isExpression new d') (hid : id < d.graph.size)
    (hne : id ≠ site) : d'.graph.item id = d.graph.item id := by
  obtain ⟨-, f, item, rfl, -⟩ := h
  simp only [onGraph]
  rw [Graph.item_insertBefore_of_ne (by simpa using Nat.ne_of_lt hid), Graph.item_modify_of_ne hne]

theorem Puts.made (h : d.Puts site isExpression new d') :
    (d'.graph.item new).processed = false ∧ (d'.graph.item new).expression?.isSome = isExpression ∧
      (d'.graph.item new).statement?.isSome = !isExpression := by
  obtain ⟨rfl, f, item, rfl, hitem⟩ := h
  have hnew : ((d.graph.modify site f).insertBefore site item).item d.graph.size = item := by
    rw [← Graph.size_modify d.graph site f]
    exact Graph.item_insertBefore_new _ site item
  simpa only [onGraph, hnew] using hitem

end Puts

end Decompilation

namespace Pass

variable {d d' : Decompilation} {func : Nat} {id site new : ItemId} {pos : UInt16} {operands : Operands}
  {ids : List ItemId}

theorem refuse_ne_ok {α : Type} {before text behind : String} {a : α} :
    (refuse pos before text behind : Pass α) d ≠ .ok a d' := throw_ne_ok

theorem requireValue_eq_ok {value : Expr} (h : requireValue pos value d = .ok () d') : d' = d := by
  unfold requireValue at h
  split at h
  · exact absurd h refuse_ne_ok
  · cases h
    rfl

/-- Behind a refusal on a condition the condition fails. -/
theorem of_refuse_when {α : Type} {c : Prop} [Decidable c] {before text behind : String} {f : PUnit → Pass α}
    {a : α} (h : (if c then refuse pos before text behind >>= f else f ⟨⟩) d = .ok a d') :
    f ⟨⟩ d = .ok a d' := by
  split at h
  · obtain ⟨_, _, hrefuse, -⟩ := bind_eq_ok.1 h
    exact absurd hrefuse refuse_ne_ok
  · exact h

/-- An operand is read as an address.  What is no expression cannot be read as one. -/
theorem reads_addressOf {value : Expr} (hid : id ∈ ids ∨ (d.graph.item id).expression? = none)
    (h : addressOf id d = .ok value d') : d.Reads func ids [] d' := by
  obtain ⟨_, _, hexpression, h⟩ := bind_eq_ok.1 (show (expression id >>= _) d = _ from h)
  cases hexpression
  dsimp only at h
  cases hslot : (d.expression id).immediate? with
  | none =>
    rw [hslot] at h
    cases h
    exact .refl _ _ _
  | some slot =>
    rw [hslot] at h
    cases h
    rcases hid with hid | hnone
    · exact Decompilation.reads_withExpression hid _
    · have hsome := expression?_isSome_of_immediate? hslot
      rw [hnone] at hsome
      cases hsome

/-! ## Arguments -/

theorem mem_of_nearestStore? {g : Graph} {name : String} {store : ItemId} {rest : List Char}
    (h : nearestStore? g name ids = some (store, rest)) : store ∈ ids := by
  obtain ⟨other, hmem, hother⟩ := List.exists_of_findSome?_eq_some h
  simp only [Option.map_eq_some_iff, Prod.mk.injEq] at hother
  obtain ⟨_, -, rfl, -⟩ := hother
  exact hmem

theorem frames_onVariables (d : Decompilation) (func : Nat) (f : Variables → Variables) :
    (d.onVariables func f).frames = d.frames := frames_onFunction d func fun _ => rfl

/-- The store for an operand becomes a comment, and the operand another expression. -/
theorem reads_inlined {store : ItemId} (hid : (d.graph.item id).statement? = none)
    (hinlines : d.Inlines func id store) (expression : Expr) (d₁ : Decompilation) (hgraph : d₁.graph = d.graph)
    (hframes : d₁.frames = d.frames) :
    d.Reads func [id] [store] { d₁ with
      graph := (d₁.graph.modify id (·.withExpression expression)).modify store Item.inlined } := by
  rw [hgraph]
  have hne : store ≠ id := by
    rintro rfl
    exact hinlines.statement?_ne_none hid
  have hstore : store < d.graph.size := Graph.lt_size_of_kind fun hkind => by
    obtain ⟨statement, hstatement, -⟩ := hinlines.text
    simp [Item.statement?, hkind] at hstatement
  refine ⟨hframes, rfl, ?_, fun other hother hnotStore => ?_, fun other hother _ => ?_, fun other hother => ?_⟩
  · rw [Graph.size_modify, Graph.size_modify]
  · rw [Graph.item_modify_of_ne (List.ne_of_not_mem_cons hnotStore),
      Graph.item_modify_of_ne (List.ne_of_not_mem_cons hother)]
  · obtain rfl := List.mem_singleton.1 hother
    rw [Graph.item_modify_of_ne hne.symm, Graph.item_modify]
    split
    · rfl
    · exact hid
  · obtain rfl := List.mem_singleton.1 hother
    refine ⟨⟨id, List.mem_singleton_self id, hinlines⟩, ?_⟩
    rw [Graph.item_modify_self (by rwa [Graph.size_modify]), Graph.item_modify_of_ne hne]

/-- What is known of the type of a local variable is forgotten, if there is one. -/
def forgettingLocal (d : Decompilation) (func : Nat) (index? : Option Nat) : Decompilation :=
  match index? with
  | none => d
  | some index => d.onVariables func (·.forgetLocal index)

theorem graph_forgettingLocal (d : Decompilation) (func : Nat) (index? : Option Nat) :
    (forgettingLocal d func index?).graph = d.graph := by
  cases index? <;> rfl

theorem frames_forgettingLocal (d : Decompilation) (func : Nat) (index? : Option Nat) :
    (forgettingLocal d func index?).frames = d.frames := by
  cases index? with
  | none => rfl
  | some index => exact frames_onVariables d func _

/-- The address of a local variable stays, or it is replaced by the number that the nearest store supplies.  What is
known of the type of the variable may be forgotten then. -/
theorem inlineLocal_eq_ok {type : DataType} (h : inlineLocal func id type d = .ok () d') :
    d' = d ∨ ∃ store rest,
      nearestStore? d.graph (d.expression id).text (d.graph.backBetween (d.bounds func).1 id) = some (store, rest) ∧
      isNumeral (Text.dropEndWhile (· == ';') rest) = true ∧
      d' = ((forgettingLocal d func (localIndex? (d.expression id).text.toList)).onGraph (·.modify id
        (·.withExpression (.atom (argumentText d type (Text.dropEndWhile (· == ';') rest)) false)))).onGraph
          (·.modify store Item.inlined) := by
  unfold inlineLocal at h
  rw [bind_of_ok (get_apply d)] at h
  dsimp only at h
  cases hnearest : nearestStore? d.graph (d.expression id).text (d.graph.backBetween (d.bounds func).1 id) with
  | none =>
    rw [hnearest] at h
    cases h
    exact Or.inl rfl
  | some found =>
    obtain ⟨store, rest⟩ := found
    rw [hnearest] at h
    dsimp only at h
    split at h
    · rename_i hnumeral
      right
      refine ⟨store, rest, rfl, hnumeral, ?_⟩
      cases hindex : localIndex? (d.expression id).text.toList with
      | none =>
        rw [hindex] at h
        cases h
        rfl
      | some index =>
        rw [hindex] at h
        cases h
        rfl
    · cases h
      exact Or.inl rfl

theorem inlines_of_nearestStore? {store : ItemId} {rest : List Char} (haddress : (d.expression id).isAddress = true)
    (hlocal : beginsWith localMark (d.expression id).text = true)
    (hnearest : nearestStore? d.graph (d.expression id).text (d.graph.backBetween (d.bounds func).1 id) =
      some (store, rest)) : d.Inlines func id store := by
  obtain ⟨statement, hstatement, htext⟩ := nearestStore?_eq_some hnearest
  exact ⟨haddress, hlocal, mem_of_nearestStore? hnearest, statement, hstatement, rest, htext.symm⟩

theorem reads_inlineLocal {type : DataType} (haddress : (d.expression id).isAddress = true)
    (hlocal : beginsWith localMark (d.expression id).text = true) (h : inlineLocal func id type d = .ok () d') :
    ∃ stores, d.Reads func [id] stores d' := by
  have hid : (d.graph.item id).statement? = none := by
    have hsome := expression?_isSome_of_isAddress haddress
    unfold Item.expression? at hsome
    unfold Item.statement?
    cases hkind : (d.graph.item id).kind <;> simp_all
  rcases inlineLocal_eq_ok h with rfl | ⟨store, rest, hnearest, -, rfl⟩
  · exact ⟨[], .refl _ _ _⟩
  · have hgraph := graph_forgettingLocal d func (localIndex? (d.expression id).text.toList)
    have hframes := frames_forgettingLocal d func (localIndex? (d.expression id).text.toList)
    generalize forgettingLocal d func (localIndex? (d.expression id).text.toList) = d₀ at hgraph hframes ⊢
    exact ⟨[store], reads_inlined hid (inlines_of_nearestStore? haddress hlocal hnearest) _ d₀ hgraph hframes⟩

/-- One argument is read. -/
theorem reads_argument {type : DataType} {text : String} (hid : (d.graph.item id).statement? = none)
    (h : argument func id type d = .ok text d') : ∃ stores, d.Reads func [id] stores d' := by
  have haddress {stores : List ItemId} {d₁ d₂ : Decompilation} {value : Expr} (h₁ : d.Reads func [id] stores d₁)
      (h₂ : addressOf id d₁ = .ok value d₂) : d.Reads func [id] stores d₂ :=
    h₁.trans (reads_addressOf (Or.inl List.mem_cons_self) h₂) fun other hother => List.mem_singleton.1 hother ▸ hid
  unfold argument at h
  obtain ⟨_, _, hexpression, h⟩ := bind_eq_ok.1 h
  cases hexpression
  dsimp only at h
  split at h
  · rename_i hlocal
    rw [Bool.and_eq_true] at hlocal
    obtain ⟨_, d₁, hinline, h⟩ := bind_eq_ok.1 h
    obtain ⟨_, d₂, h₂, hpure⟩ := bind_eq_ok.1 h
    cases hpure
    obtain ⟨stores, hreads⟩ := reads_inlineLocal hlocal.1 hlocal.2 hinline
    exact ⟨stores, haddress hreads h₂⟩
  · obtain ⟨_, d₂, h₂, hpure⟩ := bind_eq_ok.1 h
    cases hpure
    exact ⟨[], haddress (.refl _ _ _) h₂⟩

theorem reads_arguments {types : List DataType} {texts : List String} (hids : ids.Nodup)
    (hnone : ∀ id ∈ ids, (d.graph.item id).statement? = none)
    (h : arguments func types ids d = .ok texts d') : ∃ stores, d.Reads func ids stores d' := by
  induction ids generalizing types texts d with
  | nil =>
    cases h
    exact ⟨[], .refl _ _ _⟩
  | cons id rest ih =>
    obtain ⟨text, d₁, hargument, h⟩ := bind_eq_ok.1 h
    obtain ⟨others, d₂, harguments, hpure⟩ := bind_eq_ok.1 h
    cases hpure
    obtain ⟨hnew, hnodup⟩ := List.nodup_cons.1 hids
    obtain ⟨stores, hfirst⟩ := reads_argument (hnone id List.mem_cons_self) hargument
    obtain ⟨more, hrest⟩ := ih hnodup (fun other hother => by
      have hother' := hnone other (List.mem_cons_of_mem _ hother)
      rwa [hfirst.item_of_notMem hother' fun hmem => hnew (List.mem_singleton.1 hmem ▸ hother)]) harguments
    exact ⟨stores ++ more, hfirst.append hrest hnew hnone⟩

/-! ## Results -/

/-- What a combination does before it marks: it reads the operands, with stores made comments only for a call, and
puts what the operation leaves in the place of `site`. -/
def Builds (d : Decompilation) (func : Nat) (operation : Operation) (ids : List ItemId) (site new : ItemId)
    (d' : Decompilation) : Prop :=
  ∃ stores d₁, d.Reads func ids stores d₁ ∧ (stores ≠ [] → operation.isCall = true) ∧
    d₁.Puts site operation.leavesExpression new d'

variable {operation : Operation}

theorem puts_expression {expression : Expr} {leaves : Bool} (hleaves : leaves = true)
    (h : addExpression site expression d = .ok new d') : d.Puts site leaves new d' := by
  subst hleaves
  cases h
  exact ⟨rfl, _, _, rfl, rfl, rfl, rfl⟩

theorem puts_statement {statement : Statement} {leaves : Bool} (hleaves : leaves = false)
    (h : replaceByStatement site statement d = .ok new d') : d.Puts site leaves new d' := by
  subst hleaves
  cases h
  exact ⟨rfl, Item.markProcessed, _, rfl, rfl, rfl, rfl⟩

theorem builds_of_puts (h : d.Puts site operation.leavesExpression new d') :
    Builds d func operation ids site new d' :=
  ⟨[], d, .refl _ _ _, fun hne => absurd rfl hne, h⟩

theorem builds_binary {opcode : Opcode} (hleaves : operation.leavesExpression = true)
    (h : combineBinary site pos opcode operands d = .ok new d') : Builds d func operation ids site new d' := by
  obtain ⟨_, _, hsecond, h⟩ := bind_eq_ok.1 h
  cases hsecond
  obtain ⟨_, _, hfirst, h⟩ := bind_eq_ok.1 h
  cases hfirst
  obtain ⟨_, _, hleft, h⟩ := bind_eq_ok.1 h
  obtain rfl := requireValue_eq_ok hleft
  obtain ⟨_, _, hright, h⟩ := bind_eq_ok.1 h
  obtain rfl := requireValue_eq_ok hright
  exact builds_of_puts (puts_expression hleaves h)

theorem builds_unary {opcode : Opcode} (hleaves : operation.leavesExpression = true)
    (h : combineUnary site pos opcode operands d = .ok new d') : Builds d func operation ids site new d' := by
  obtain ⟨_, _, hoperand, h⟩ := bind_eq_ok.1 h
  cases hoperand
  obtain ⟨_, _, hvalue, h⟩ := bind_eq_ok.1 h
  obtain rfl := requireValue_eq_ok hvalue
  exact builds_of_puts (puts_expression hleaves h)

/-- Where there are too few operands the first item of the listing is looked at. -/
theorem getD_operands (operands : Operands) (index : Nat) (hzero : (d.graph.item 0).expression? = none) :
    operands.ids.getD index 0 ∈ operands.ids ∨ (d.graph.item (operands.ids.getD index 0)).expression? = none := by
  rw [List.getD_eq_getElem?_getD]
  cases hid : operands.ids[index]? with
  | none => exact Or.inr hzero
  | some id => exact Or.inl (List.mem_of_getElem? hid)

theorem builds_load (hzero : (d.graph.item 0).expression? = none) (hleaves : operation.leavesExpression = true)
    (h : combineLoad site pos operands d = .ok new d') :
    Builds d func operation operands.ids site new d' := by
  obtain ⟨_, _, hoperand, h⟩ := bind_eq_ok.1 h
  cases hoperand
  obtain ⟨_, d₁, haddress, h⟩ := bind_eq_ok.1 h
  exact ⟨[], d₁, reads_addressOf (getD_operands operands 0 hzero) haddress, fun hne => absurd rfl hne,
    puts_expression hleaves (of_refuse_when h)⟩

theorem builds_element (hzero : (d.graph.item 0).expression? = none) (hleaves : operation.leavesExpression = true)
    (h : combineElement site pos operands d = .ok new d') :
    Builds d func operation operands.ids site new d' := by
  obtain ⟨_, _, hbase, h⟩ := bind_eq_ok.1 h
  cases hbase
  obtain ⟨_, d₁, haddress, h⟩ := bind_eq_ok.1 h
  obtain ⟨_, _, hindex, h⟩ := bind_eq_ok.1 h
  cases hindex
  exact ⟨[], d₁, reads_addressOf (getD_operands operands 0 hzero) haddress, fun hne => absurd rfl hne,
    puts_expression hleaves (of_refuse_when (of_refuse_when h))⟩

theorem builds_store (hzero : (d.graph.item 0).expression? = none) (hleaves : operation.leavesExpression = false)
    (h : combineStore id site pos operation operands d = .ok new d') :
    Builds d func operation operands.ids site new d' := by
  obtain ⟨_, _, hlast, h⟩ := bind_eq_ok.1 h
  cases hlast
  obtain ⟨_, _, hfirst, h⟩ := bind_eq_ok.1 h
  cases hfirst
  obtain ⟨_, d₁, haddress, h⟩ := bind_eq_ok.1 h
  have hreads : d.Reads func operands.ids [] d₁ := by
    split at haddress
    · exact reads_addressOf (getD_operands operands 0 hzero) haddress
    · exact reads_addressOf (getD_operands operands 1 hzero) haddress
  obtain ⟨_, _, hvalue, h⟩ := bind_eq_ok.1 h
  cases hvalue
  obtain ⟨_, _, hget, h⟩ := bind_eq_ok.1 h
  cases hget
  exact ⟨[], d₁, hreads, fun hne => absurd rfl hne, puts_statement hleaves (of_refuse_when (of_refuse_when h))⟩

theorem builds_return (hleaves : operation.leavesExpression = false)
    (h : combineReturn site operands d = .ok new d') : Builds d func operation ids site new d' := by
  obtain ⟨_, _, hoperand, h⟩ := bind_eq_ok.1 h
  cases hoperand
  exact builds_of_puts (puts_statement hleaves h)

theorem builds_say (hleaves : operation.leavesExpression = false)
    (h : combineSay site pos operands d = .ok new d') : Builds d func operation ids site new d' := by
  obtain ⟨_, _, hoperand, h⟩ := bind_eq_ok.1 h
  cases hoperand
  dsimp only at h
  cases hvalue : (d.expression (operands.ids.getD 0 0)).immediate? with
  | none =>
    rw [hvalue] at h
    exact absurd h throw_ne_ok
  | some said =>
    rw [hvalue] at h
    obtain ⟨_, _, hget, h⟩ := bind_eq_ok.1 h
    cases hget
    cases hliteral : d.stringLiteral? said with
    | none =>
      rw [hliteral] at h
      exact absurd h throw_ne_ok
    | some literal =>
      rw [hliteral] at h
      exact builds_of_puts (puts_statement hleaves h)

theorem calledName_eq_ok {name : String} (h : calledName pos operation d = .ok name d') : d' = d := by
  unfold calledName at h
  split at h
  · exact importedName_eq_ok h
  · cases h
    rfl

theorem builds_call (hcall : operation.isCall = true) (hleaves : operation.leavesExpression = operation.yieldsExpression)
    (hids : operands.ids.Nodup) (hnone : ∀ id ∈ operands.ids, (d.graph.item id).statement? = none)
    (h : combineCall func site pos operation operands d = .ok new d') :
    Builds d func operation operands.ids site new d' := by
  obtain ⟨_, d₀, hname, hrest⟩ := bind_eq_ok.1 h
  obtain rfl := calledName_eq_ok hname
  obtain ⟨texts, d₁, harguments, hput⟩ := bind_eq_ok.1 hrest
  obtain ⟨stores, hreads⟩ := reads_arguments hids hnone harguments
  refine ⟨stores, d₁, hreads, fun _ => hcall, ?_⟩
  split at hput
  · rename_i hyields
    exact puts_expression (hleaves.trans hyields) hput
  · rename_i hyields
    exact puts_statement (hleaves.trans (Bool.eq_false_iff.2 hyields)) hput

/-- Every operation is combined by reading its operands and putting what it leaves. -/
theorem builds_combineKind (hzero : (d.graph.item 0).expression? = none) (hids : operands.ids.Nodup)
    (hnone : ∀ id ∈ operands.ids, (d.graph.item id).statement? = none)
    (h : combineKind func id site pos operation operands d = .ok new d') :
    Builds d func operation operands.ids site new d' := by
  cases hopcode : operation.opcode <;> simp only [combineKind, hopcode] at h
  case call | calli =>
    exact builds_call (by simp [Operation.isCall, hopcode]) (by simp [Operation.leavesExpression, hopcode])
      hids hnone h
  case saveReg => exact builds_return (by simp [Operation.leavesExpression, hopcode]) h
  case sayOp => exact builds_say (by simp [Operation.leavesExpression, hopcode]) h
  case fetchm => exact builds_load hzero (by simp [Operation.leavesExpression, hopcode]) h
  case offset => exact builds_element hzero (by simp [Operation.leavesExpression, hopcode]) h
  case sto => exact builds_store hzero (by simp [Operation.leavesExpression, hopcode]) h
  case neg | not => exact builds_unary (by simp [Operation.leavesExpression, hopcode]) h
  all_goals exact builds_binary (by simp [Operation.leavesExpression, hopcode]) h

end Pass

end Parley
