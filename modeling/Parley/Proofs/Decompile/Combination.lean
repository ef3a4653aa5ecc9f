import Parley.Proofs.Decompile.Analysis
import Parley.Proofs.Decompile.Editing
set_option autoImplicit false

/-!
# The combination of operations writes no line of a block

It marks operations and their operands.  Of the statements it turns only those into comments that store into a
local variable, and no line of a block begins with the name of one.
-/

namespace Parley

/-- Operands are expressions that nothing has consumed. -/
theorem Graph.isOpenExpression_of_mem_takeOperands {g : Graph} {needed : Nat} {ids : List ItemId}
    {id : ItemId} (h : id ∈ (g.takeOperands needed ids).ids) : (g.item id).isOpenExpression = true := by
  induction ids generalizing needed with
  | nil => cases needed <;> cases h
  | cons other rest ih =>
    cases needed with
    | zero => cases h
    | succ needed =>
      rw [takeOperands] at h
      split at h
      · rename_i hopen
        rcases List.mem_cons.1 h with rfl | h
        · exact hopen
        · exact ih h
      · exact ih h

theorem Graph.site_of_operation? {g : Graph} {id : ItemId} {operation : Operation}
    (h : (g.item id).operation? = some operation) : g.Site id := by
  unfold Item.operation? at h
  refine ⟨lt_size_of_kind fun hkind => by simp [hkind] at h, ?_, ?_⟩
  · unfold Item.statement?
    cases hkind : (g.item id).kind <;> simp_all
  · unfold Item.isOpcode Item.opcode? Item.opcodeItem?
    cases hkind : (g.item id).kind <;> simp_all

namespace Pass

open Fallible

variable {d d' : Decompilation} {id site : ItemId} {operands : Operands}

/-! ## Operands -/

theorem collectOperands_eq_ok {start operation : ItemId} {needed : Nat}
    (h : collectOperands start operation needed d = .ok operands d') :
    d' = d ∧ ∀ id ∈ operands.ids, (d.graph.item id).isOpenExpression = true := by
  unfold collectOperands at h
  obtain ⟨d₁, d₂, hget, h⟩ := bind_eq_ok.1 h
  cases hget
  dsimp only at h
  split at h
  · obtain ⟨_, _, hthrow, -⟩ := bind_eq_ok.1 h
    exact absurd hthrow throw_ne_ok
  · obtain ⟨rfl, rfl⟩ := pure_eq_ok.1 h
    exact ⟨rfl, fun id hid => Graph.isOpenExpression_of_mem_takeOperands hid⟩

theorem quiet_collectOperands (start operation : ItemId) (needed : Nat) :
    Quiet (collectOperands start operation needed) d :=
  quiet_get_bind (quiet_when (fun _ => quiet_throw _) fun _ _ _ => quiet_pure _)

theorem expression?_isSome_of_immediate? {slot : UInt16}
    (h : (d.expression id).immediate? = some slot) : (d.graph.item id).expression?.isSome := by
  unfold Decompilation.expression at h
  cases hexpression : (d.graph.item id).expression? with
  | none =>
    rw [hexpression] at h
    cases h
  | some expression => rfl

theorem expression?_isSome_of_isAddress (h : (d.expression id).isAddress = true) :
    (d.graph.item id).expression?.isSome := by
  unfold Decompilation.expression at h
  cases hexpression : (d.graph.item id).expression? with
  | none =>
    rw [hexpression] at h
    cases h
  | some expression => rfl

theorem grows_withExpression (h : (d.graph.item id).expression?.isSome) (expression : Expr)
    (hd : d.graph.Sound) : d.graph.Grows [] (d.graph.modify id (·.withExpression expression)) :=
  Graph.grows_modify hd (Item.Kept.withExpression h expression) fun _ => rfl

/-- No line of a block is written when operands are read. -/
theorem spans_advances : Spans fun d d' => d.graph.Sound → d.Advances [] d' where
  refl _ := Decompilation.Advances.refl
  trans _ _ _ h h' hd := (h hd).trans (h' (h hd).sound)
  address _ _ _ himmediate hd := by
    obtain ⟨slot, hslot⟩ := Option.isSome_iff_exists.1 himmediate
    exact ⟨grows_withExpression (expression?_isSome_of_immediate? hslot) _ hd, rfl⟩

/-- None is written in the place of an operation. -/
theorem spansAt_advances (site : ItemId) :
    SpansAt (fun d d' => d.graph.Sound → d.graph.Site site → d.Advances [] d') site where
  refl _ hd _ := .refl hd
  trans _ _ _ h h' hd hsite := (h hd hsite).trans (h' (h hd hsite).sound ((h hd hsite).site hsite))
  address d id expression himmediate hd _ := spans_advances.address d id expression himmediate hd
  expression _ _ hd hsite := quiet_addExpression hsite _ hd
  statement _ _ hd hsite := quiet_replaceByStatement hsite rfl hd

/-! ## Calls -/

theorem head?_of_beginsWith_localMark {name : String} (h : beginsWith localMark name = true) :
    name.toList.head? = some 'l' := by
  obtain ⟨rest, hname⟩ := List.isPrefixOf_iff_prefix.1 h
  rw [← hname]
  rfl

/-- The nearest store into a variable is a statement that begins with its name. -/
theorem nearestStore?_eq_some {g : Graph} {name : String} {ids : List ItemId} {store : ItemId}
    {rest : List Char} (h : nearestStore? g name ids = some (store, rest)) :
    ∃ statement, (g.item store).statement? = some statement ∧
      statement.text.toList = (name ++ storeMark).toList ++ rest := by
  obtain ⟨other, -, hother⟩ := List.exists_of_findSome?_eq_some h
  simp only [Option.map_eq_some_iff, Option.bind_eq_some_iff, Prod.mk.injEq] at hother
  obtain ⟨_, ⟨statement, hstatement, hfront⟩, rfl, rfl⟩ := hother
  exact ⟨statement, hstatement, Text.withoutFront?_eq_some.1 hfront⟩

/-- A store into a local variable begins like it and is no line of a block. -/
theorem of_nearestStore? {g : Graph} {name : String} {ids : List ItemId} {store : ItemId}
    {rest : List Char} (hg : g.Sound) (hname : name.toList.head? = some 'l')
    (h : nearestStore? g name ids = some (store, rest)) :
    ∃ statement, (g.item store).statement? = some statement ∧ statement.text.toList.head? = some 'l' ∧
      (g.item store).blockLine? = none := by
  obtain ⟨statement, hstatement, htext⟩ := nearestStore?_eq_some h
  have hletter : statement.text.toList.head? = some 'l' := by
    rw [htext, String.toList_append, List.append_assoc, List.head?_append, hname]
    rfl
  refine ⟨statement, hstatement, hletter, ?_⟩
  cases hline : (g.item store).blockLine? with
  | none => rfl
  | some line =>
    have hsame : statement = line := by
      unfold Item.blockLine? at hline
      split at hline
      · cases hline
      · rw [hstatement] at hline
        exact Option.some.inj (Option.filter_eq_some_iff.1 hline).1
    exact absurd hletter (hsame ▸ hg.letter store line hline)

/-- An argument is written as a number and the store of the number becomes a comment. -/
theorem quiet_inlined {store : ItemId} {statement : Statement}
    (hid : (d.graph.item id).expression?.isSome)
    (hstatement : (d.graph.item store).statement? = some statement)
    (hletter : statement.text.toList.head? = some 'l') (hline : (d.graph.item store).blockLine? = none)
    (expression : Expr) (text : Item → String) :
    Quiet (onGraph (·.modify id (·.withExpression expression)) >>= fun _ =>
      onGraph fun g => g.modify store fun item => (item.withText (text item)).markProcessed) d := by
  have hne : store ≠ id := by
    rintro rfl
    unfold Item.statement? at hstatement
    unfold Item.expression? at hid
    cases hkind : (d.graph.item store).kind <;> simp_all
  refine (quiet_onGraph (grows_withExpression hid expression)).bind fun _ d₁ hok _ => ?_
  have hstore : d₁.graph.item store = d.graph.item store := by
    cases hok
    exact Graph.item_modify_of_ne hne _
  refine quiet_onGraph fun hd₁ => Graph.grows_modify hd₁ ?_ fun item => ?_
  · rw [hstore]
    exact Item.Kept.commented hstatement hletter hline _
  · obtain ⟨_, _, _, _, kind⟩ := item
    cases kind <;> rfl

theorem quiet_inlineLocal (func : Nat) (type : DataType)
    (haddress : (d.expression id).isAddress = true)
    (hname : beginsWith localMark (d.expression id).text = true) :
    Quiet (inlineLocal func id type) d := by
  intro hd
  refine (quiet_get_bind ?_ : Quiet (inlineLocal func id type) d) hd
  dsimp only
  split
  · exact quiet_pure _
  · rename_i store rest hstore
    have hid := expression?_isSome_of_isAddress haddress
    obtain ⟨statement, hstatement, hletter, hline⟩ :=
      of_nearestStore? hd (head?_of_beginsWith_localMark hname) hstore
    split
    · split
      · rename_i index
        refine (quiet_onVariables func _).bind fun _ d₁ hok _ => ?_
        have hgraph : d₁.graph = d.graph := by
          cases hok
          rfl
        rw [← hgraph] at hid hstatement hline
        exact quiet_inlined hid hstatement hletter hline _ _
      · exact quiet_inlined hid hstatement hletter hline _ _
    · exact quiet_pure _

theorem quiet_argument (func : Nat) (id : ItemId) (type : DataType) : Quiet (argument func id type) d :=
  spans_advances.argument fun _ _ type haddress hname => quiet_inlineLocal func type haddress hname

/-! ## The pass -/

theorem quiet_combineKind (func : Nat) (h : d.graph.Site site) (pos : UInt16)
    (operation : Operation) : Quiet (combineKind func id site pos operation operands) d := fun hd =>
  (spansAt_advances site).combineKind
    (fun _ _ _ type haddress hname hd _ => quiet_inlineLocal func type haddress hname hd) hd h

theorem grows_moveLabel (earliest combined : ItemId) (hd : d.graph.Sound) :
    d.graph.Grows [] (moveLabel earliest combined d.graph) := by
  unfold moveLabel
  dsimp only
  split
  · have hfirst := Graph.grows_modify hd (Item.Kept.withoutLabel (d.graph.item earliest)) fun _ => rfl
    exact hfirst.trans (Graph.grows_modify hfirst.sound (Item.Kept.withLabel _ _ _) fun _ => rfl)
  · exact Graph.Grows.refl hd

theorem site_of_operands (hid : d.graph.Site id)
    (hoperands : ∀ id ∈ operands.ids, (d.graph.item id).isOpenExpression = true) :
    d.graph.Site (operands.site id) := by
  unfold Operands.site Operands.earliest?
  split
  · rename_i earliest hearliest
    split
    · exact hid
    · exact Graph.site_of_isOpenExpression (hoperands earliest (List.mem_of_getLast? hearliest))
  · exact hid

theorem quiet_combineOperation (func : Nat) {operation : Operation}
    (h : (d.graph.item id).operation? = some operation) :
    Quiet (combineOperation func id operation) d := by
  have hid := Graph.site_of_operation? h
  refine quiet_get_bind ?_
  refine (quiet_collectOperands _ id _).bind fun operands d₁ hok h₁ => ?_
  obtain ⟨rfl, hoperands⟩ := collectOperands_eq_ok hok
  refine (quiet_combineKind func (site_of_operands hid hoperands) _ operation).bind
    fun combined d₂ _ h₂ => ?_
  have hmark {d₃ : Decompilation} (h₃ : d₁.Advances [] d₃) :
      Quiet (onGraph (·.modifyAll (id :: operands.ids) Item.markProcessed)) d₃ := by
    refine quiet_markAll fun other hother => h₃.site ?_
    rcases List.mem_cons.1 hother with rfl | hother
    · exact hid
    · exact Graph.site_of_isOpenExpression (hoperands other hother)
  dsimp only
  split
  · exact (quiet_onGraph (grows_moveLabel _ combined)).bind fun _ d₃ _ h₃ => hmark (h₂.trans h₃)
  · exact hmark h₂

theorem quiet_combineItem (func : Nat) (id : ItemId) : Quiet (combineItem func id) d := by
  refine quiet_get_bind ?_
  dsimp only
  split
  · rename_i operation hoperation
    split at hoperation
    · cases hoperation
    · exact quiet_combineOperation func hoperation
  · exact quiet_pure _

/-- The combination of the operations of a function writes no line of a block. -/
theorem quiet_combine (func : Nat) : Quiet (combine func) d :=
  quiet_get_bind (quiet_forM fun id _ _ _ => quiet_combineItem func id)

end Pass

end Parley
