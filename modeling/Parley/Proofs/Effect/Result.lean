import Parley.Proofs.Effect.Storing
import Parley.Proofs.Source.Rendering
set_option autoImplicit false

/-!
# What a turn leaves

A store leaves a line of two texts with a mark between them, that of the place and that of what is stored there.  No
other turn leaves a line that reads like the store of a number into a local variable: a return begins with another
word, and a call ends with a parenthesis.  So such a line tells what has been stored, and where.
-/

namespace Parley

open Fallible

/-! ## The texts of stores -/

namespace Pass

/-- The mark of a store does not occur in a name, not even with its own beginning behind the name.  So a text that
begins with the name and the mark is split there by the first mark. -/
def Markless (name : String) : Prop := ¬ storeMark.toList <:+: name.toList ++ storeMark.toList.dropLast

instance (name : String) : Decidable (Markless name) :=
  inferInstanceAs (Decidable (¬ storeMark.toList <:+: name.toList ++ storeMark.toList.dropLast))

theorem forall_of_isNumeral {text : List Char} (h : isNumeral text = true) :
    ∀ c ∈ text, c = '-' ∨ Text.isDecimalDigit c = true := by
  unfold isNumeral at h
  rw [Bool.and_eq_true] at h
  intro c hc
  cases hfront : Text.withoutFront? ['-'] text with
  | none =>
    rw [hfront, Option.getD_none] at h
    exact Or.inr (List.all_eq_true.1 h.2 c hc)
  | some rest =>
    rw [hfront, Option.getD_some] at h
    rw [Text.withoutFront?_eq_some.1 hfront] at hc
    rcases List.mem_cons.1 hc with rfl | hc
    · exact Or.inl rfl
    · exact Or.inr (List.all_eq_true.1 h.2 c hc)

/-- What is stored where a number is read consists of the characters of the number and of semicolons. -/
theorem forall_of_numeral {rest : List Char} (h : isNumeral (Text.dropEndWhile (· == ';') rest) = true) :
    ∀ c ∈ rest, c = ';' ∨ c = '-' ∨ Text.isDecimalDigit c = true := by
  intro c hc
  rw [← List.mem_reverse, ← List.takeWhile_append_dropWhile (p := (· == ';')) (l := rest.reverse),
    List.mem_append] at hc
  rcases hc with hc | hc
  · have hsemicolon := List.all_eq_true.1 (List.all_takeWhile (p := (· == ';')) (l := rest.reverse)) c hc
    exact Or.inl (beq_iff_eq.1 hsemicolon)
  · exact Or.inr (forall_of_isNumeral h c (List.mem_reverse.2 hc))

/-- No number is read at the end of a line that ends like a call. -/
theorem not_isNumeral_of_call {front behind rest : List Char} (h : front ++ [')', ';'] = behind ++ rest) :
    isNumeral (Text.dropEndWhile (· == ';') rest) = false := by
  by_contra hnumeral
  rw [Bool.not_eq_false] at hnumeral
  have hparenthesis : ')' ∉ rest := fun hmem => by
    have hcases := forall_of_numeral hnumeral ')' hmem
    revert hcases
    decide
  rcases List.append_eq_append_iff.1 h with ⟨more, -, hrest⟩ | ⟨more, -, hrest⟩
  · match more, hrest with
    | [], hrest =>
      rw [List.nil_append] at hrest
      exact hparenthesis (hrest ▸ List.mem_cons_self)
    | [_], hrest =>
      cases hrest
      revert hnumeral
      decide
    | [_, _], hrest =>
      cases hrest
      revert hnumeral
      decide
    | _ :: _ :: _ :: _, hrest => cases hrest
  · exact hparenthesis (hrest ▸ by simp)

/-- A line in which a number is stored at a place without marks is read in one way. -/
theorem eq_of_numeral {name place : String} {rest stored : List Char} (hname : Markless name)
    (hnumeral : isNumeral (Text.dropEndWhile (· == ';') rest) = true)
    (h : (name ++ storeMark).toList ++ rest = (place ++ storeMark).toList ++ stored) :
    place = name ∧ stored = rest := by
  have hblank : ' ' ∉ rest := fun hmem => by
    have hcases := forall_of_numeral hnumeral ' ' hmem
    revert hcases
    decide
  have hmark : storeMark.toList = [' ', '=', ' '] := rfl
  rw [String.toList_append, String.toList_append, List.append_assoc, List.append_assoc] at h
  rcases List.append_eq_append_iff.1 h with ⟨more, hplace, hrest⟩ | ⟨more, hplace, hrest⟩
  · -- The place is longer than the name, and what is stored begins behind a blank that stands in the number.
    rw [hmark] at hrest
    match more, hrest with
    | [], hrest => exact ⟨String.toList_inj.1 (by simpa using hplace), by simpa using hrest.symm⟩
    | [_], hrest => cases hrest
    | [_, _], hrest =>
      simp only [List.cons_append, List.nil_append, List.cons.injEq, true_and] at hrest
      exact absurd (hrest.2.2 ▸ List.mem_cons_of_mem _ List.mem_cons_self) hblank
    | _ :: _ :: _ :: more, hrest =>
      simp only [List.cons_append, List.nil_append, List.cons.injEq] at hrest
      exact absurd (hrest.2.2.2 ▸ List.mem_append_right more List.mem_cons_self) hblank
  · -- The name is longer than the place, and then the mark behind the place begins in it.
    rcases Nat.eq_zero_or_pos more.length with hempty | hlength
    · rw [List.length_eq_zero_iff.1 hempty, List.append_nil] at hplace
      rw [List.length_eq_zero_iff.1 hempty, List.nil_append] at hrest
      exact ⟨(String.toList_inj.1 hplace).symm, List.append_cancel_left hrest⟩
    · refine absurd ?_ hname
      have hbegins : storeMark.toList <+: more ++ storeMark.toList.dropLast := by
        refine List.prefix_of_prefix_length_le (⟨stored, hrest⟩) ?_ ?_
        · exact (List.prefix_append_right_inj more).2 ((List.dropLast_prefix _).trans (List.prefix_append _ _))
        · rw [List.length_append, hmark]
          exact Nat.add_le_add_right hlength 2
      rw [hplace, List.append_assoc]
      exact hbegins.isInfix.trans (List.suffix_append _ _).isInfix

/-- The mark is not in a name without blanks. -/
theorem markless_of_notMem {name : String} (h : ' ' ∉ name.toList) : Markless name := by
  intro hinfix
  have hcount := hinfix.sublist.count_le ' '
  rw [List.count_append, List.count_eq_zero.2 h] at hcount
  revert hcount
  decide

/-- Local variables have such names. -/
theorem markless_localName (index : UInt16) : Markless (localName index) := by
  refine markless_of_notMem fun hblank => ?_
  rw [localName, String.toList_append, List.mem_append] at hblank
  rcases hblank with hblank | hblank
  · revert hblank
    decide
  · have hdigit := Source.isDigit_decimal index ' ' hblank
    revert hdigit
    decide

end Pass

/-! ## What a turn leaves -/

namespace Turn

/-- The address that a store stores at. -/
def target (t : Turn) : ItemId := t.operands.getD (if t.operation.swapsStore then 0 else 1) 0

/-- The value that a store stores. -/
def value (t : Turn) : ItemId := t.operands.getD (if t.operation.swapsStore then 1 else 0) 0

end Turn

namespace Pass

variable {d d' : Decompilation} {func : Nat} {t : Turn} {id site new : ItemId}

/-- A new expression leaves the items what they are. -/
theorem kind_addExpression {expression : Expr} (h : addExpression site expression d = .ok new d')
    (hid : id < d.graph.size) : (d'.graph.item id).kind = (d.graph.item id).kind := by
  cases h
  rw [Decompilation.onGraph, Graph.item_insertBefore_of_ne (by simpa using Nat.ne_of_lt hid)]
  exact Graph.modify_keeps (p := Item.kind) (f := fun old => old.withoutLabel.markProcessed) (fun _ => rfl) d.graph
    site id

theorem kind_replaceByStatement {statement : Statement} (h : replaceByStatement site statement d = .ok new d')
    (hid : id < d.graph.size) : (d'.graph.item id).kind = (d.graph.item id).kind := by
  cases h
  rw [Decompilation.onGraph, Graph.replaceByStatement, Graph.addStatement, Graph.markProcessed,
    Graph.item_insertBefore_of_ne (by simpa using Nat.ne_of_lt hid)]
  exact (Graph.marks_markProcessed d.graph site).kind id

/-- The statement itself is the next item. -/
theorem statement?_replaceByStatement {statement : Statement} (h : replaceByStatement site statement d = .ok new d') :
    new = d.graph.size ∧ d'.graph.size = d.graph.size + 1 ∧ (d'.graph.item new).statement? = some statement := by
  cases h
  have hnew := Graph.item_insertBefore_new (d.graph.markProcessed site) site
    (.ofKind ((d.graph.markProcessed site).item site).pos (.statement statement))
  rw [Graph.markProcessed, Graph.size_modify] at hnew
  refine ⟨rfl, ?_, ?_⟩
  · rw [Decompilation.onGraph, Graph.replaceByStatement, Graph.addStatement, Graph.markProcessed,
      Graph.size_insertBefore, Graph.size_modify]
  · rw [Decompilation.onGraph, Graph.replaceByStatement, Graph.addStatement, Graph.markProcessed, hnew]
    rfl

/-- What a turn makes of the items is made by the combination of its operation. -/
theorem exists_combineKind (run : combineItem func t.id d = .ok () d') (h : d.Consumes func t d') :
    ∃ (operands : Operands) (combined : ItemId) (d₁ : Decompilation), operands.ids = t.operands ∧
      combineKind func t.id (operands.site t.id) (d.graph.item t.id).pos t.operation operands d = .ok combined d₁ ∧
      d'.functions = d₁.functions ∧ d'.graph.size = d₁.graph.size ∧
      ∀ id, (d'.graph.item id).kind = (d₁.graph.item id).kind := by
  rw [combineItem_of_some h.isOpen] at run
  unfold combineOperation at run
  rw [bind_of_ok (get_apply d), bind_of_ok (collectOperands_of_le h.enough)] at run
  obtain ⟨combined, d₁, hkind, run⟩ := bind_eq_ok.1 run
  have hids := (Graph.ids_takeOperands d.graph t.operation.needed
    (d.graph.backBetween (d.bounds func).1 t.id)).trans h.operands.symm
  generalize d.graph.takeOperands t.operation.needed (d.graph.backBetween (d.bounds func).1 t.id) = operands at *
  refine ⟨operands, combined, d₁, hids, hkind, ?_⟩
  cases hearliest : operands.earliest? with
  | none =>
    rw [hearliest] at run
    cases run
    exact ⟨rfl, Graph.size_markAll _ _, (Graph.marks_markAll _ _).kind⟩
  | some earliest =>
    rw [hearliest] at run
    cases run
    have hlabels := relabels_moveLabel (List.mem_of_getLast? hearliest) combined d₁.graph
    exact ⟨rfl, (Graph.size_markAll _ _).trans hlabels.size, fun id =>
      ((Graph.marks_markAll _ _).kind id).trans (hlabels.state id).2⟩

/-- Items that are the same kind of thing are the same expression. -/
theorem expression_congr (h : (d'.graph.item id).kind = (d.graph.item id).kind) :
    d'.expression id = d.expression id := by
  unfold Decompilation.expression Item.expression?
  rw [h]

/-- What stands for an operand is an item. -/
theorem getD_operands_lt_size (h : d.Consumes func t d') (index : Nat) : t.operands.getD index 0 < d.graph.size := by
  rw [List.getD_eq_getElem?_getD]
  cases hid : t.operands[index]? with
  | none => exact Nat.zero_lt_of_lt h.lt_size
  | some id => exact (Graph.site_of_isOpenExpression (h.isOpenExpression_of_mem (List.mem_of_getElem? hid))).lt_size

/-- An address is read off the item behind the change that reading it makes, and only a number is changed. -/
theorem addressOf_eq_ok {value : Expr} (h : addressOf id d = .ok value d') :
    value = d'.expression id ∧ d'.strings = d.strings ∧ d'.functions = d.functions ∧
      ((d.expression id).immediate? = none → d' = d) := by
  obtain ⟨_, _, hexpression, h⟩ := bind_eq_ok.1 (show (expression id >>= _) d = _ from h)
  cases hexpression
  dsimp only at h
  cases hslot : (d.expression id).immediate? with
  | none =>
    rw [hslot] at h
    cases h
    exact ⟨rfl, rfl, rfl, fun _ => rfl⟩
  | some slot =>
    rw [hslot] at h
    cases h
    exact ⟨rfl, rfl, rfl, fun hnone => by cases hnone⟩

/-- An answer of a menu is written as a string literal. -/
theorem head?_menuAnswer {target answer : String} {value : UInt16} (h : menuAnswer? d id target value = some answer) :
    answer.toList.head? = some '"' := by
  unfold menuAnswer? at h
  split at h
  · obtain ⟨literal, hliteral, rfl⟩ := Option.map_eq_some_iff.1 h
    obtain ⟨text, -, rfl⟩ := Option.map_eq_some_iff.1 hliteral
    simp only [String.append_assoc, String.toList_append]
    rfl
  · cases h

/-- What is stored is shown as the text of the value, or else as an answer of a menu. -/
theorem stored_eq_or (value : Expr) (target : String) :
    (value.immediate?.bind (menuAnswer? d id target)).getD (value.text ++ ";") = value.text ++ ";" ∨
      ((value.immediate?.bind (menuAnswer? d id target)).getD (value.text ++ ";")).toList.head? = some '"' := by
  cases hanswer : value.immediate?.bind (menuAnswer? d id target) with
  | none => exact Or.inl rfl
  | some answer =>
    obtain ⟨number, -, hmenu⟩ := Option.bind_eq_some_iff.1 hanswer
    exact Or.inr (head?_menuAnswer hmenu)

theorem not_of_refuse {α : Type} {c : Prop} [Decidable c] {before text behind : String} {pos : UInt16}
    {f : PUnit → Pass α} {a : α} (h : (if c then refuse pos before text behind >>= f else f ⟨⟩) d = .ok a d') :
    ¬ c ∧ f ⟨⟩ d = .ok a d' := by
  refine ⟨fun hc => ?_, of_refuse_when h⟩
  rw [if_pos hc] at h
  obtain ⟨_, _, hrefuse, -⟩ := bind_eq_ok.1 h
  exact refuse_ne_ok hrefuse

/-- A store writes the name of its target and what it stores: the text of its value, or the string that a menu
offers. -/
theorem combineStore_eq_ok {pos : UInt16} {operation : Operation} {operands : Operands}
    (h : combineStore id site pos operation operands d = .ok new d') :
    ∃ d₀ stored,
      (d₀.expression (operands.ids.getD (if operation.swapsStore then 0 else 1) 0)).isAddress = true ∧
      replaceByStatement site (.plain
        ((d₀.expression (operands.ids.getD (if operation.swapsStore then 0 else 1) 0)).text ++ storeMark ++ stored))
          d₀ = .ok new d' ∧
      (stored = (d₀.expression (operands.ids.getD (if operation.swapsStore then 1 else 0) 0)).text ++ ";" ∨
        stored.toList.head? = some '"') := by
  obtain ⟨_, _, hlast, h⟩ := bind_eq_ok.1 h
  cases hlast
  obtain ⟨_, _, hfirst, h⟩ := bind_eq_ok.1 h
  cases hfirst
  obtain ⟨target, d₀, haddress, h⟩ := bind_eq_ok.1 h
  obtain ⟨rfl, -, -⟩ := addressOf_eq_ok haddress
  obtain ⟨_, _, hvalue, h⟩ := bind_eq_ok.1 h
  cases hvalue
  obtain ⟨_, _, hget, h⟩ := bind_eq_ok.1 h
  cases hget
  obtain ⟨hplace, h⟩ := not_of_refuse h
  obtain ⟨-, h⟩ := not_of_refuse h
  cases hswaps : operation.swapsStore with
  | true =>
    rw [hswaps] at hplace h
    exact ⟨d₀, _, by simpa using hplace, h, stored_eq_or _ _⟩
  | false =>
    rw [hswaps] at hplace h
    exact ⟨d₀, _, by simpa using hplace, h, stored_eq_or _ _⟩

/-- A statement that is put in the end is what the turn leaves. -/
theorem statement_of_put {combined : ItemId} {d₀ d₁ : Decompilation} {statement : Statement} (h : d.Consumes func t d')
    (hsize : d'.graph.size = d₁.graph.size) (hsame : ∀ id, (d'.graph.item id).kind = (d₁.graph.item id).kind)
    (hput : replaceByStatement site statement d₀ = .ok combined d₁) :
    (d'.graph.item t.result).statement? = some statement ∧
      ∀ id < d.graph.size, d'.expression id = d₀.expression id := by
  obtain ⟨rfl, hmore, hstatement⟩ := statement?_replaceByStatement hput
  have hold : d₀.graph.size = d.graph.size := Nat.succ.inj (hmore.symm.trans (hsize.symm.trans h.size))
  rw [hold] at hstatement
  refine ⟨?_, fun id hid => ?_⟩
  · rw [h.result, Item.statement?_congr (hsame _), hstatement]
  · exact expression_congr ((hsame id).trans (kind_replaceByStatement hput (hold.symm ▸ hid)))

/-- What a store leaves. -/
theorem statement_of_sto (run : combineItem func t.id d = .ok () d') (h : d.Consumes func t d')
    (hsto : t.operation.opcode = .sto) :
    (d'.expression t.target).isAddress = true ∧ ∃ stored, (d'.graph.item t.result).statement? =
        some (.plain ((d'.expression t.target).text ++ storeMark ++ stored)) ∧
      (stored = (d'.expression t.value).text ++ ";" ∨ stored.toList.head? = some '"') := by
  obtain ⟨operands, combined, d₁, hids, hkind, -, hsize, hsame⟩ := exists_combineKind run h
  simp only [combineKind, hsto] at hkind
  obtain ⟨d₀, stored, haddress, hput, hstored⟩ := combineStore_eq_ok hkind
  obtain ⟨hstatement, hexpression⟩ := statement_of_put h hsize hsame hput
  rw [hids] at haddress hstatement hstored
  unfold Turn.target Turn.value
  rw [hexpression _ (getD_operands_lt_size h _), hexpression _ (getD_operands_lt_size h _)]
  exact ⟨haddress, stored, hstatement, hstored⟩

/-- What is left that is no store begins with a return or ends like a call. -/
theorem statement_of_ne_sto (run : combineItem func t.id d = .ok () d') (h : d.Consumes func t d')
    (hleaves : t.operation.leavesExpression = false) (hsto : t.operation.opcode ≠ .sto) :
    ∃ text, (d'.graph.item t.result).statement? = some (.plain text) ∧
      (beginsWith localMark text = false ∨ ∃ front, text = front ++ ");") := by
  obtain ⟨operands, combined, d₁, -, hkind, -, hsize, hsame⟩ := exists_combineKind run h
  have hcall (hyields : t.operation.yieldsExpression = false)
      (hkind : combineCall func (operands.site t.id) (d.graph.item t.id).pos t.operation operands d = .ok combined d₁) :
      ∃ text, (d'.graph.item t.result).statement? = some (.plain text) ∧
        (beginsWith localMark text = false ∨ ∃ front, text = front ++ ");") := by
    obtain ⟨name, d₀, -, hkind⟩ := bind_eq_ok.1 hkind
    obtain ⟨texts, d₂, -, hkind⟩ := bind_eq_ok.1 hkind
    simp only [hyields, Bool.false_eq_true, if_false] at hkind
    refine ⟨_, (statement_of_put h hsize hsame hkind).1, Or.inr ⟨name ++ "(" ++ String.intercalate ", " texts, ?_⟩⟩
    simp only [String.append_assoc]
    rfl
  unfold Operation.leavesExpression at hleaves
  cases hopcode : t.operation.opcode <;> simp only [combineKind, hopcode, reduceCtorEq] at hkind hleaves
  case call | calli => exact hcall hleaves hkind
  case sto => exact absurd hopcode hsto
  case saveReg =>
    obtain ⟨_, _, hvalue, hkind⟩ := bind_eq_ok.1 hkind
    cases hvalue
    refine ⟨_, (statement_of_put h hsize hsame hkind).1, Or.inl ?_⟩
    simp [beginsWith, localMark, List.isPrefixOf]
  case sayOp =>
    obtain ⟨_, _, hvalue, hkind⟩ := bind_eq_ok.1 hkind
    cases hvalue
    dsimp only at hkind
    cases hsaid : (d.expression (operands.ids.getD 0 0)).immediate? with
    | none =>
      rw [hsaid] at hkind
      exact absurd hkind throw_ne_ok
    | some said =>
      rw [hsaid] at hkind
      obtain ⟨_, _, hget, hkind⟩ := bind_eq_ok.1 hkind
      cases hget
      cases hliteral : d.stringLiteral? said with
      | none =>
        rw [hliteral] at hkind
        exact absurd hkind throw_ne_ok
      | some literal =>
        rw [hliteral] at hkind
        refine ⟨_, (statement_of_put h hsize hsame hkind).1, Or.inl ?_⟩
        simp [beginsWith, localMark, List.isPrefixOf]

end Pass

end Parley
