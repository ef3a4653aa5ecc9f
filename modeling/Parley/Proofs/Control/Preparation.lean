import Parley.Decompile.Decompile
import Parley.Proofs.Control.Calm
import Parley.Proofs.Decompile.Analysis
import Parley.Proofs.Decompile.Operand
import Parley.Proofs.Structure.Frame
set_option autoImplicit false

/-!
# A function before and behind the recovery of its control structures

The analysis of a function, the combination of its operations and its signature leave the control structure alone.
They replace instructions that neither jump nor branch, operations and expressions, and the stores that become
comments begin with the name of a local variable.
-/

namespace Parley.Pass

open Fallible

variable {d d' : Decompilation} {start stop site call id : ItemId} {operands : Operands}

/-! ## Analysis -/

theorem calm_consumeLoad (id : ItemId) : Calm start stop (consumeLoad id) d := by
  refine calm_get_bind ?_
  split
  · exact calm_pure false
  · rename_i next hnext
    have hopen := (Option.filter_eq_some_iff.1 hnext).2
    exact (calm_markProcessed (Graph.inert_of_isOpenOpcode hopen rfl)).bind_pure true

theorem calm_consumeCleanup : Calm start stop (consumeCleanup call site) d := by
  refine calm_get_bind ?_
  refine (calm_markAll fun id hid => ?_).bind_pure _
  rcases List.mem_append.1 hid with hid | hid
  · have hopen := List.mem_takeWhile_imp hid
    exact Graph.inert_of_isOpenOpcode (show (d.graph.item id).isOpenOpcode .pop = true from hopen) rfl
  · exact Graph.inert_of_isOpenOpcode (Option.filter_eq_some_iff.1 (Option.mem_toList.1 hid)).2 rfl

theorem calm_importedName (pos id : UInt16) : Calm start stop (importedName pos id) d := by
  refine calm_of_final ?_ ?_ ?_ <;> rw [importedName_apply] <;> split <;> rfl

theorem calm_noteCaller (func callee : Nat) : Calm start stop (noteCaller func callee) d := by
  refine calm_of_final ?_ ?_ ?_ <;> rw [noteCaller, modify_apply, final_ok] <;> split
  any_goals rfl
  exact frames_onFunction d callee fun _ => rfl

theorem calm_enteredFunction (func : Nat) (target : UInt16) (label : Option String) :
    Calm start stop (enteredFunction func target label) d := by
  refine calm_get_bind ?_
  dsimp only
  split <;> split
  · exact calm_pure none
  · split
    · exact calm_pure _
    · exact calm_throw _
  · exact calm_pure none
  · split
    · exact calm_pure _
    · exact calm_throw _

section Sites

variable (h : d.graph.Inert site)

include h

theorem calm_addStore : Calm start stop (addStore site) d := by
  refine calm_get_bind ?_
  dsimp only
  split
  · rename_i swap hswap
    have hopen := (Option.filter_eq_some_iff.1 hswap).2
    refine (calm_markProcessed (Graph.inert_of_isOpenOpcode hopen rfl)).bind fun _ d₁ _ h₁ => ?_
    exact (calm_addOperation (h₁.inert h) _).bind_pure _
  · exact (calm_addOperation h _).bind_pure _

theorem calm_addIntrinsicCall (end' : ItemId) : Calm start stop (addIntrinsicCall site end') d := by
  refine calm_get_bind ?_
  refine (calm_importedName _ _).bind fun name d₁ _ h₁ => ?_
  refine (calm_markProcessed (h₁.inert h)).bind fun _ d₂ _ h₂ => ?_
  refine calm_consumeCleanup.bind fun cleanup d₃ _ h₃ => ?_
  have hlater := (h₁.trans h₂).trans h₃
  refine (calm_addOperation ?_ _).bind_pure _
  cases hcount : (d.graph.prev? site).filter fun prev => (d.graph.item prev).isOpenOpcode .pushi with
  | none => exact hlater.inert h
  | some count => exact hlater.inert (Graph.inert_of_isOpenOpcode (Option.filter_eq_some_iff.1 hcount).2 rfl)

theorem calm_addLocalCall (func : Nat) (end' : ItemId) : Calm start stop (addLocalCall func site end') d := by
  refine calm_get_bind (calm_consumeCleanup.bind fun cleanup d₁ _ h₁ => ?_)
  refine (calm_addOperation (h₁.inert h) _).bind fun _ d₂ _ h₂ => ?_
  refine (calm_enteredFunction func _ _).bind fun callee? d₃ _ h₃ => ?_
  cases callee? with
  | none => exact calm_pure none
  | some callee => exact (calm_noteCaller func callee).bind_pure _

theorem calm_addReturn (func : Nat) (hbegins : d.graph.Begins site returnPattern) :
    Calm start stop (addReturn func site) d := by
  intro hd
  refine ((calm_addOperation h _).bind fun _ d₁ _ h₁ => ?_ : Calm start stop (addReturn func site) d) hd
  have hbegins₁ := hbegins.extends h₁.longer hd h₁.ordered h.lt_size
  refine (calm_markOpcodes hbegins₁ (by decide)).bind fun _ d₂ _ h₂ => ?_
  exact calm_onFunction func fun _ => rfl

variable (hwithin : d.graph.Within start stop site)

include hwithin

theorem calm_addElement (func : Nat) (hbegins : d.graph.Begins site elementPattern) :
    Calm start stop (addElement func site) d := by
  intro hd
  refine (calm_get_bind ?_ : Calm start stop (addElement func site) d) hd
  refine (calm_onVariables func _).bind fun _ d₁ _ h₁ => ?_
  refine (calm_addExpression (h₁.inert h) (h₁.within hwithin) _).bind fun _ d₂ _ h₂ => ?_
  have hlater := h₁.trans h₂
  exact calm_markOpcodes (hbegins.extends hlater.longer hd hlater.ordered h.lt_size) (by decide)

theorem calm_addVariable (func : Nat) : Calm start stop (addVariable func site) d := by
  refine calm_get_bind ((calm_consumeLoad site).bind fun loaded d₁ _ h₁ => ?_)
  dsimp only
  split <;>
  · refine (calm_onVariables func _).bind fun _ d₂ _ h₂ => ?_
    have hlater := h₁.trans h₂
    exact (calm_addExpression (hlater.inert h) (hlater.within hwithin) _).bind_pure _

theorem calm_addImmediate : Calm start stop (addImmediate site) d := by
  refine calm_get_bind ((calm_consumeLoad site).bind fun loaded d₁ _ h₁ => ?_)
  exact (calm_addExpression (h₁.inert h) (h₁.within hwithin) _).bind_pure _

end Sites

theorem calm_analyzeOpcode (func : Nat) (end' : ItemId) {opcode : Opcode}
    (hopcode : (d.graph.item site).opcode? = some opcode) (hwithin : d.graph.Within start stop site) :
    Calm start stop (analyzeOpcode func end' site opcode) d := by
  have hinert : opcode.isConditional = false → d.graph.Inert site := Graph.inert_of_opcode? hopcode
  cases opcode with
  | exitOp => exact (calm_replaceByStatement (hinert rfl) rfl).bind_pure none
  | calli => exact (calm_addIntrinsicCall (hinert rfl) end').bind_pure none
  | call => exact calm_addLocalCall (hinert rfl) func end'
  | sto => exact (calm_addStore (hinert rfl)).bind_pure none
  | pushiEff => exact (calm_addVariable (hinert rfl) hwithin func).bind_pure none
  | pushi =>
    refine calm_get_bind ?_
    dsimp only
    split
    · exact (calm_addImmediate (hinert rfl) hwithin).bind_pure none
    · exact calm_pure none
  | _ => first | exact (calm_addOperation (hinert rfl) _).bind_pure none | exact calm_pure none

/-- The opcodes of a pattern are those of the instructions that match it. -/
theorem opcode?_of_matchesPattern {opcode : Opcode} {pattern : List Opcode}
    (h : d.graph.matchesPattern site stop (opcode :: pattern) = true) :
    (d.graph.item site).opcode? = some opcode := by
  rw [Graph.matchesPattern, Bool.and_eq_true, List.head?_cons, Option.all_some] at h
  exact of_decide_eq_true h.1

theorem calm_analyzeItem (func : Nat) (end' : ItemId) (hwithin : d.graph.Within start stop site) :
    Calm start stop (analyzeItem func end' site) d := by
  refine calm_get_bind ?_
  dsimp only
  split
  · exact calm_pure none
  · rename_i opcode hopcode
    split at hopcode
    · cases hopcode
    · split
      · rename_i hpattern
        exact (calm_addElement (Graph.inert_of_opcode? (opcode?_of_matchesPattern hpattern) rfl) hwithin func
          (Graph.begins_of_matchesPattern hpattern)).bind_pure none
      · split
        · rename_i hpattern
          exact (calm_addReturn (Graph.inert_of_opcode? (opcode?_of_matchesPattern hpattern) rfl) func
            (Graph.begins_of_matchesPattern hpattern)).bind_pure none
        · exact calm_analyzeOpcode func end' hopcode hwithin

/-- The analysis of items leaves the control structure alone. -/
theorem calm_analyze (func : Nat) (hwithin : ∀ id ∈ d.body func, d.graph.Within start stop id) :
    Calm start stop (analyze func) d :=
  calm_get_bind (calm_foldlM fun id hid _ _ h =>
    (calm_analyzeItem func _ (h.within (hwithin id hid))).bind fun _ _ _ _ => calm_pure _)

/-! ## Combination -/

theorem calm_collectOperands (front operation : ItemId) (needed : Nat) :
    Calm start stop (collectOperands front operation needed) d :=
  calm_get_bind (calm_when (fun _ => calm_throw _) fun _ _ _ => calm_pure _)

theorem calm_withExpression (h : (d.graph.item id).expression?.isSome = true) (expression : Expr) :
    Calm start stop (onGraph (·.modify id (·.withExpression expression))) d :=
  fun hd _ => Decompilation.calm_modify hd (Item.Steady.withExpression h expression) fun _ => rfl

/-- The control structure is left alone when operands are read and what they make is put in the place of one. -/
theorem spansAt_calm (start stop site : ItemId) :
    SpansAt (fun d d' => d.graph.Ordered → d.graph.Legible → d.graph.Inert site ∧ d.graph.Within start stop site →
      d.Calm start stop d') site where
  refl _ hd _ _ := .refl hd
  trans _ _ _ h h' hd hlegible hsite := by
    have hfirst := h hd hlegible hsite
    exact hfirst.trans (h' hfirst.ordered (hfirst.legible hlegible)
      ⟨hfirst.inert hsite.1, hfirst.within hsite.2⟩)
  address _ _ _ himmediate hd hlegible _ := by
    obtain ⟨slot, hslot⟩ := Option.isSome_iff_exists.1 himmediate
    exact calm_withExpression (expression?_isSome_of_immediate? hslot) _ hd hlegible
  expression _ _ hd hlegible hsite := calm_addExpression hsite.1 hsite.2 _ hd hlegible
  statement _ _ hd hlegible hsite := calm_replaceByStatement hsite.1 rfl hd hlegible

/-- What is stored into a local variable is no line of the control structure. -/
theorem of_nearestStore?_of_legible {g : Graph} {name : String} {ids : List ItemId} {store : ItemId} {rest : List Char}
    (hg : g.Legible) (hname : beginsWith localMark name = true)
    (h : nearestStore? g name ids = some (store, rest)) :
    (g.item store).statement?.isSome = true ∧ (g.item store).controlLine? = none := by
  obtain ⟨statement, hstatement, htext⟩ := nearestStore?_eq_some h
  refine ⟨by rw [hstatement]; rfl, ?_⟩
  cases hline : (g.item store).controlLine? with
  | none => rfl
  | some line =>
    have hsame : statement = line :=
      Option.some.inj (hstatement.symm.trans (Item.controlLine?_eq_some.1 hline).2.1)
    have hbegins : beginsWith localMark statement.text = true := by
      rw [beginsWith, htext, String.toList_append, List.append_assoc]
      exact List.isPrefixOf_iff_prefix.2
        ((List.isPrefixOf_iff_prefix.1 hname).trans (List.prefix_append _ _))
    rw [hsame, hg store line hline] at hbegins
    cases hbegins

theorem calm_inlineLocal (func : Nat) (type : DataType) (haddress : (d.expression id).isAddress = true)
    (hname : beginsWith localMark (d.expression id).text = true) :
    Calm start stop (inlineLocal func id type) d := by
  have hid := expression?_isSome_of_isAddress haddress
  have hinlined {d₁ : Decompilation} (h₁ : d₁.graph = d.graph) {store : ItemId} {expression : Expr}
      {text : Item → String} (hstatement : (d.graph.item store).statement?.isSome = true)
      (hline : (d.graph.item store).controlLine? = none) :
      Calm start stop (onGraph (·.modify id (·.withExpression expression)) >>= fun _ =>
        onGraph fun g => g.modify store fun item => (item.withText (text item)).markProcessed) d₁ := by
    have hne : store ≠ id := by
      rintro rfl
      rw [(Item.of_expression? hid).2] at hstatement
      cases hstatement
    refine (calm_withExpression (h₁ ▸ hid) expression).bind fun _ d₂ hok _ hd₂ _ => ?_
    have hstore : d₂.graph.item store = d.graph.item store := by
      cases hok
      exact (Graph.item_modify_of_ne hne _).trans (congrArg (·.item store) h₁)
    refine Decompilation.calm_modify hd₂ ?_ fun item => ?_
    · rw [hstore]
      exact Item.Steady.commented hstatement hline _
    · obtain ⟨_, _, _, _, kind⟩ := item
      cases kind <;> rfl
  intro hd hlegible
  refine (calm_get_bind ?_ : Calm start stop (inlineLocal func id type) d) hd hlegible
  dsimp only
  split
  · exact calm_pure _
  · rename_i store rest hstore
    obtain ⟨hstatement, hline⟩ := of_nearestStore?_of_legible hlegible hname hstore
    split
    · split
      · refine (calm_onVariables func _).bind fun _ d₁ hok _ => ?_
        exact hinlined (by cases hok; rfl) hstatement hline
      · exact hinlined rfl hstatement hline
    · exact calm_pure _

theorem calm_combineKind (func : Nat) (h : d.graph.Inert site) (hwithin : d.graph.Within start stop site)
    (pos : UInt16) (operation : Operation) :
    Calm start stop (combineKind func id site pos operation operands) d := fun hd hlegible =>
  (spansAt_calm start stop site).combineKind (fun _ _ _ type haddress hname hd hlegible _ =>
    calm_inlineLocal func type haddress hname hd hlegible) hd hlegible ⟨h, hwithin⟩

theorem calm_moveLabel (earliest combined : ItemId) : Calm start stop (onGraph (moveLabel earliest combined)) d := by
  intro hd hlegible
  change d.Calm start stop (d.onGraph (moveLabel earliest combined))
  unfold Decompilation.onGraph moveLabel
  dsimp only
  split
  · have hfirst : d.Calm start stop (d.onGraph (·.modify earliest Item.withoutLabel)) :=
      Decompilation.calm_modify hd (Item.Steady.withLabel _ none 0) fun _ => rfl
    exact hfirst.trans (Decompilation.calm_modify hfirst.ordered (Item.Steady.withLabel _ _ _) fun _ => rfl)
  · exact .refl hd

/-- Operands stand between the front of their function and their operation. -/
theorem within_of_collectOperands {needed : Nat} (hd : d.graph.Ordered) (hid : d.graph.Within start stop id)
    (h : collectOperands start id needed d = .ok operands d') {other : ItemId} (hother : other ∈ operands.ids) :
    (d.graph.item other).isOpenExpression = true ∧ d.graph.Within start stop other := by
  unfold collectOperands at h
  obtain ⟨d₁, d₂, hget, h⟩ := bind_eq_ok.1 h
  cases hget
  dsimp only at h
  split at h
  · obtain ⟨_, _, hthrow, -⟩ := bind_eq_ok.1 h
    exact absurd hthrow throw_ne_ok
  · obtain ⟨rfl, rfl⟩ := pure_eq_ok.1 h
    rw [Graph.ids_takeOperands] at hother
    obtain ⟨hbefore, hopen⟩ := List.mem_filter.1 (List.mem_of_mem_take hother)
    obtain ⟨hfront, hback⟩ := (hd.mem_backBetween hid.1).1 hbefore
    exact ⟨hopen, hfront, hback.trans hd.nodup hid.2⟩

theorem calm_combineOperation (func : Nat) {operation : Operation} (hbounds : (d.bounds func).1 = start)
    (h : (d.graph.item id).operation? = some operation) (hwithin : d.graph.Within start stop id) :
    Calm start stop (combineOperation func id operation) d := by
  intro hd
  have hid : d.graph.Inert id := Graph.inert_of_operation? (by rw [h]; rfl)
  refine (calm_get_bind ?_ : Calm start stop (combineOperation func id operation) d) hd
  refine (calm_collectOperands _ id _).bind fun operands d₁ hok _ => ?_
  rw [hbounds] at hok
  have hoperands {other : ItemId} (hother : other ∈ operands.ids) := within_of_collectOperands hd hwithin hok hother
  have hinert {other : ItemId} (hother : other ∈ operands.ids) : d.graph.Inert other := by
    have hopen := (hoperands hother).1
    rw [Item.isOpenExpression, Bool.and_eq_true] at hopen
    exact Graph.inert_of_expression? hopen.2
  obtain ⟨rfl, -⟩ := collectOperands_eq_ok hok
  have hsite : d₁.graph.Inert (operands.site id) ∧ d₁.graph.Within start stop (operands.site id) := by
    unfold Operands.site Operands.earliest?
    split
    · rename_i earliest hearliest
      have hmem := List.mem_of_getLast? hearliest
      split
      · exact ⟨hid, hwithin⟩
      · exact ⟨hinert hmem, (hoperands hmem).2⟩
    · exact ⟨hid, hwithin⟩
  refine (calm_combineKind func hsite.1 hsite.2 _ operation).bind fun combined d₂ _ h₂ => ?_
  have hmark {d₃ : Decompilation} (h₃ : d₁.Calm start stop d₃) :
      Calm start stop (onGraph (·.modifyAll (id :: operands.ids) Item.markProcessed)) d₃ := by
    refine calm_markAll fun other hother => h₃.inert ?_
    rcases List.mem_cons.1 hother with rfl | hother
    · exact hid
    · exact hinert hother
  dsimp only
  split
  · exact (calm_moveLabel _ combined).bind fun _ d₃ _ h₃ => hmark (h₂.trans h₃)
  · exact hmark h₂

theorem calm_combineItem (func : Nat) (hbounds : (d.bounds func).1 = start) (hwithin : d.graph.Within start stop id) :
    Calm start stop (combineItem func id) d := by
  refine calm_get_bind ?_
  dsimp only
  split
  · rename_i operation hoperation
    split at hoperation
    · cases hoperation
    · exact calm_combineOperation func hbounds hoperation hwithin
  · exact calm_pure _

/-- The combination of operations leaves the control structure alone. -/
theorem calm_combine (func : Nat) (hbounds : (d.bounds func).1 = start)
    (hwithin : ∀ id ∈ d.body func, d.graph.Within start stop id) : Calm start stop (combine func) d :=
  calm_get_bind (calm_forM fun id hid _ h => calm_combineItem func
    ((congrArg Prod.fst (Decompilation.bounds_congr h.frames func)).trans hbounds) (h.within (hwithin id hid)))

end Parley.Pass

/-! ## Signatures -/

namespace Parley.Decompilation

variable {d : Decompilation} {start stop site : ItemId}

theorem calm_declarations (hd : d.graph.Ordered) (hsite : site < d.graph.size) (texts : List String) :
    d.Calm start stop (d.onGraph fun g => texts.foldl (fun g text => g.addStatement site (.plain text)) g) := by
  induction texts generalizing d with
  | nil => exact .refl hd
  | cons text rest ih =>
    have hfirst : d.Calm start stop (d.onGraph (·.addStatement site (.plain text))) :=
      calm_addStatement hd hsite rfl
    exact hfirst.trans (ih hfirst.ordered (Nat.lt_of_lt_of_le hsite hfirst.longer.size))

theorem calm_addBlankLine (hd : d.graph.Ordered) {id other : ItemId} (hother : Precedes d.graph.order id other) :
    d.Calm start stop (d.onGraph (·.addBlankLine id)) := by
  obtain ⟨next, hnext⟩ := Option.isSome_iff_exists.1 (hd.isSome_next? hother)
  have hlt := hd.lt_of_mem (hd.precedes_next? (hd.lt_of_mem hother.left_mem) hnext).right_mem
  have hblank : d.graph.addBlankLine id = d.graph.addStatement next (.plain "") := by
    rw [Graph.addBlankLine, hnext]
  rw [onGraph, hblank]
  exact calm_addStatement hd hlt rfl

/-- The lines around the body of a function are no part of the control structure in it. -/
theorem calm_addSignature (hd : d.graph.Ordered) {info : FunctionInfo} (hfits : info.frame.Fits d.graph) :
    d.Calm start stop (d.onGraph (·.addSignature info)) := by
  have hfront : d.graph.Inert info.startItem :=
    Graph.inert_of_boundary (hd.lt_of_mem hfits.ordered.left_mem) (Or.inl hfits.front)
  have hback : d.graph.Inert info.endItem :=
    Graph.inert_of_boundary (hd.lt_of_mem hfits.ordered.right_mem) (Or.inr hfits.back)
  have hplain (text : String) : (Statement.plain text).role.isControl = false := rfl
  have hopens : (⟨openBrace, .opens .function⟩ : Statement).role.isControl = false := rfl
  have hcloses : (⟨closingLine "end-function", .closes .function⟩ : Statement).role.isControl = false := rfl
  have hheaded : d.Calm start stop _ := calm_replaceByStatement hd hfront
    (hplain (info.header (d.graph.item info.startItem).xrefCount))
  have hopened := hheaded.trans (calm_addStatement hheaded.ordered (hheaded.inert hfront).lt_size hopens)
  have hdeclared := hopened.trans (calm_declarations hopened.ordered (hopened.inert hfront).lt_size
    info.declarations)
  have hclosed := hdeclared.trans (calm_replaceByStatement hdeclared.ordered (hdeclared.inert hback) hcloses)
  obtain ⟨other, hother, -⟩ := hfits.behind
  exact hclosed.trans (calm_addBlankLine hclosed.ordered (hother.mono hclosed.longer.order))

theorem calm_dropUnreached (hd : d.graph.Ordered) (reached : List UInt16) (info : FunctionInfo) :
    d.Calm start stop (dropUnreached reached d info) := by
  unfold dropUnreached
  split
  · exact .refl hd
  · exact calm_modify hd (Item.Steady.withLabel _ _ 0) fun _ => rfl

theorem calm_dropAllUnreached (hd : d.graph.Ordered) (reached : List UInt16) :
    d.Calm start stop (d.dropAllUnreached reached) := by
  unfold dropAllUnreached
  generalize d.functions.toList = infos
  induction infos generalizing d with
  | nil => exact .refl hd
  | cons info rest ih =>
    have hfirst : d.Calm start stop (dropUnreached reached d info) := calm_dropUnreached hd reached info
    exact hfirst.trans (ih hfirst.ordered)

end Parley.Decompilation

namespace Parley.Pass

open Fallible

theorem calm_addSignature {d : Decompilation} {start stop : ItemId} {func : Nat}
    (hframed : d.graph.Framed d.frames) : Calm start stop (addSignature func) d := by
  intro hd _
  rw [addSignature, modify_apply, final_ok]
  split
  · rename_i info hinfo
    have hframe : d.frames[func]? = some info.frame := by rw [d.getElem?_frames, hinfo]; rfl
    exact Decompilation.calm_addSignature hd (hframed.fits _ (List.mem_of_getElem? hframe))
  · exact .refl hd

end Parley.Pass
