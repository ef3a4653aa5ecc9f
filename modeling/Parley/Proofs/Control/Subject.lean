import Parley.Proofs.Control.Chain
import Parley.Proofs.Source.Decompile
set_option autoImplicit false

/-!
# What a switch tests

The subject of a switch and the values of its cases are the two parts of the texts of its conditions, in front of the
first sign of equality and behind it.  They are the sides of an equality if the condition is one and its left side has
no such sign of its own.  Other conditions have the sign in their texts as well, and become cases all the same.
-/

namespace Parley

open Fallible Source

/-! ## The first occurrence of a mark -/

namespace Text

variable {mark text before behind : List Char}

theorem eq_of_splitOnce? (h : splitOnce? mark text = some (before, behind)) : text = before ++ (mark ++ behind) := by
  induction text generalizing before with
  | nil =>
    rw [splitOnce?] at h
    split at h
    · cases h
      rename_i hmark
      rw [List.isEmpty_iff.1 hmark]
      rfl
    · cases h
  | cons c rest ih =>
    rw [splitOnce?] at h
    split at h
    · rename_i hprefix
      cases h
      obtain ⟨behind, hbehind⟩ := List.isPrefixOf_iff_prefix.1 hprefix
      rw [← hbehind, List.drop_left]
      rfl
    · obtain ⟨⟨front, back⟩, hfound, hpair⟩ := Option.map_eq_some_iff.1 h
      cases hpair
      rw [ih hfound, List.cons_append]

/-- No occurrence of the mark stands further in front. -/
theorem length_le_of_splitOnce? (h : splitOnce? mark text = some (before, behind)) {front back : List Char}
    (htext : text = front ++ (mark ++ back)) : before.length ≤ front.length := by
  induction text generalizing before front with
  | nil =>
    rw [splitOnce?] at h
    split at h
    · cases h
      exact Nat.zero_le _
    · cases h
  | cons c rest ih =>
    rw [splitOnce?] at h
    split at h
    · cases h
      exact Nat.zero_le _
    · rename_i hprefix
      obtain ⟨⟨shorter, _⟩, hfound, hpair⟩ := Option.map_eq_some_iff.1 h
      cases hpair
      cases front with
      | nil => exact absurd (List.isPrefixOf_iff_prefix.2 ⟨back, htext.symm⟩) hprefix
      | cons d front => exact Nat.succ_le_succ (ih hfound (List.cons.inj htext).2)

/-- A text is split where a mark stands exactly if the mark does not begin further in front. -/
theorem splitOnce?_eq_iff (hmark : mark ≠ []) (h : splitOnce? mark text = some (before, behind)) {front back : List Char}
    (htext : text = front ++ (mark ++ back)) :
    (before = front ∧ behind = back) ↔ ¬ mark <:+: front ++ mark.dropLast := by
  have hlast : mark.dropLast ++ [mark.getLast hmark] = mark := List.dropLast_append_getLast hmark
  have hlength : mark.dropLast.length + 1 = mark.length := by
    rw [List.length_dropLast]
    exact Nat.sub_add_cancel (List.length_pos_iff.2 hmark)
  constructor
  · rintro ⟨rfl, rfl⟩ ⟨a, b, hinfix⟩
    have hearlier : text = a ++ (mark ++ (b ++ (mark.getLast hmark :: behind))) := by
      calc text = before ++ mark.dropLast ++ [mark.getLast hmark] ++ behind := by
            rw [List.append_assoc before, hlast, htext, List.append_assoc]
        _ = a ++ (mark ++ (b ++ (mark.getLast hmark :: behind))) := by rw [← hinfix]; simp
    have hle := length_le_of_splitOnce? h hearlier
    have hsame := congrArg List.length hinfix
    simp only [List.length_append] at hsame
    omega
  · intro hfree
    have hsame := (eq_of_splitOnce? h).symm.trans htext
    have hle := length_le_of_splitOnce? h htext
    rcases Nat.eq_or_lt_of_le hle with heq | hlt
    · obtain ⟨rfl, hrest⟩ := List.append_inj hsame heq
      exact ⟨rfl, List.append_cancel_left hrest⟩
    · -- The mark would begin within what stands in front.
      refine absurd ?_ hfree
      have hfront : before ++ mark <+: text := ⟨behind, by rw [eq_of_splitOnce? h, List.append_assoc]⟩
      have hback : front ++ mark.dropLast <+: text :=
        ⟨mark.getLast hmark :: back, by
          rw [htext]
          nth_rewrite 3 [← hlast]
          simp⟩
      have hprefix : before ++ mark <+: front ++ mark.dropLast := by
        refine List.prefix_of_prefix_length_le hfront hback ?_
        simp only [List.length_append]
        omega
      exact (List.suffix_append before mark).isInfix.trans hprefix.isInfix

end Text

/-! ## The sides of an equality -/

namespace Expr

/-- An operand of an equality as it is written. -/
def sideText (operand : Expr) : String := wrapFor Opcode.testEq.precedence operand.precedence operand.text

/-- The expression is an equality, and of its sides one is written as the subject and the other as the value. -/
def Equates (e : Expr) (subject value : String) : Prop :=
  ∃ left right, e = .binary .testEq left right ∧
    ((subject = left.sideText ∧ value = right.sideText) ∨ (subject = right.sideText ∧ value = left.sideText))

/-- The sign of an equality does not begin within its left side. -/
def Signless (left : Expr) : Prop := ¬ " == ".toList <:+: left.sideText.toList ++ " ==".toList

instance (left : Expr) : Decidable left.Signless := inferInstanceAs (Decidable (¬ _))

theorem text_equality (left right : Expr) :
    (binary .testEq left right).text = left.sideText ++ " == " ++ right.sideText := by
  rw [text, ← sideText, ← sideText, show Opcode.testEq.operatorText = "==" from rfl, String.ext_iff]
  simp

variable {e : Expr} {subject value : String}

theorem of_splitComparison? {text : String} (h : splitComparison? text = some (subject, value)) :
    Text.splitOnce? " == ".toList text.toList = some (subject.toList, value.toList) := by
  obtain ⟨⟨left, right⟩, hsplit, hpair⟩ := Option.map_eq_some_iff.1 h
  cases hpair
  rw [hsplit, String.toList_ofList, String.toList_ofList]

/-- The text of a condition that becomes a case. -/
theorem text_eq_of_splitComparison? {text : String} (h : splitComparison? text = some (subject, value)) :
    text = subject ++ " == " ++ value := by
  rw [String.ext_iff, Text.eq_of_splitOnce? (of_splitComparison? h)]
  simp

/-- A text is split between the sides of an equality exactly if the sign does not begin in the left one. -/
theorem splits_sides_iff {left right : Expr}
    (h : splitComparison? (binary .testEq left right).text = some (subject, value)) :
    (subject = left.sideText ∧ value = right.sideText) ↔ left.Signless := by
  have htext : (binary .testEq left right).text.toList =
      left.sideText.toList ++ (" == ".toList ++ right.sideText.toList) := by
    rw [text_equality]
    simp
  have hiff := Text.splitOnce?_eq_iff (by decide) (of_splitComparison? h) htext
  rw [String.toList_inj, String.toList_inj] at hiff
  exact hiff

/-- A condition equates the two parts of its text exactly if it is an equality whose left side has no sign of equality of
its own, or whose sides are those parts the other way round. -/
theorem equates_iff (h : splitComparison? e.text = some (subject, value)) :
    e.Equates subject value ↔ ∃ left right, e = .binary .testEq left right ∧
      (left.Signless ∨ (subject = right.sideText ∧ value = left.sideText)) := by
  constructor
  · rintro ⟨left, right, rfl, hsides⟩
    exact ⟨left, right, rfl, hsides.imp_left (splits_sides_iff h).1⟩
  · rintro ⟨left, right, rfl, hsides⟩
    exact ⟨left, right, rfl, hsides.imp_left (splits_sides_iff h).2⟩

end Expr

/-! ## The conditions of a switch -/

/-- What the cases of a switch test.  A switch is written as a chain of cases, and the text of each condition is that of
its subject and of the value of the case with the first sign of equality between them.  So the case tests the subject for
the value exactly if the condition is an equality whose left side has no such sign, or whose sides are those texts the
other way round. -/
theorem switch_equates {image : Image} {strings : List String} {options : NamingOptions} {phases : List Phase}
    {d : Decompilation} (hd : d = runPhases phases (.ofImage image strings options)) {func : Nat} {tried : List ItemId}
    {first : ItemId} {subject : String} {case : SwitchCase}
    (hopened : ((d.triedSwitches func tried).item first).isOpenExpression = true)
    (hswitch : (d.triedSwitches func tried).switchAt? first (d.bounds func).2 = some (subject, case)) :
    ∃ k cases last, k.condition = first ∧ k.case = case ∧
      CaseChain (d.triedSwitches func tried) subject case.join k cases last ∧
      (d.triedSwitches func tried).Overlays (first :: cases.flatMap (·.marks)) (switchPuts subject first cases last)
        (d.triedSwitches func (tried ++ [first])) ∧
      ∀ k' ∈ cases, ((d.triedSwitches func tried).item k'.condition).expression? = some k'.expression ∧
        k'.expression.text = subject ++ " == " ++ k'.value ∧
        (k'.expression.Equates subject k'.value ↔ ∃ left right, k'.expression = .binary .testEq left right ∧
          (left.Signless ∨ (subject = right.sideText ∧ k'.value = left.sideText))) := by
  obtain ⟨k, cases, last, hcondition, hcase, hchain, hoverlays⟩ := Decompilation.exists_chain hd hopened hswitch
  refine ⟨k, cases, last, hcondition, hcase, hchain, hoverlays, fun k' hk' => ?_⟩
  have hstands := hchain.stands k' hk'
  exact ⟨hstands.expression, Expr.text_eq_of_splitComparison? hstands.compares, Expr.equates_iff hstands.compares⟩

/-! ## Two cases -/

/-- A local variable is tested for a value. -/
def testCode (value : UInt16) : List Instruction :=
  [⟨.pushiEff, some 1⟩, ⟨.fetchm, none⟩, ⟨.pushi, some value⟩, ⟨.testEq, none⟩]

/-- What a case does behind its condition. -/
def caseCode (join : UInt16) : List Instruction := [⟨.beq, some 4⟩, ⟨.exitOp, none⟩, ⟨.jmp, some join⟩]

/-- A function with two cases, the first of them with something behind its test, and with something behind the cases. -/
def twoCases (guarding rest : List Instruction) (join : UInt16) : Image := .ofCode (encode (prologueCode 2 ++
  (testCode 1 ++ guarding ++ caseCode join ++ testCode 2 ++ caseCode join ++ rest) ++ epilogueCode)).toArray

/-- The phases of the decompilation of a single function before its switches are written. -/
def phasesBeforeSwitches : List Phase := [.references, .discovery, .relabeling, .analysis 0, .combination 0]

/-- Both cases test the local variable. -/
theorem switch_equates_twoCases :
    ∃ d case k cases last, d = runPhases phasesBeforeSwitches (.ofImage (twoCases [] [] 27) [] ⟨false, .empty⟩) ∧
      (d.triedSwitches 0 []).switchAt? 31 (d.bounds 0).2 = some ("local_1", case) ∧
      CaseChain (d.triedSwitches 0 []) "local_1" case.join k cases last ∧
      ∀ k' ∈ cases, k'.expression.Equates "local_1" k'.value := by
  obtain ⟨d, hd⟩ : ∃ d, d = runPhases phasesBeforeSwitches (.ofImage (twoCases [] [] 27) [] ⟨false, .empty⟩) := ⟨_, rfl⟩
  have hfound : ((d.triedSwitches 0 []).item 31).isOpenExpression = true ∧
      ((d.triedSwitches 0 []).switchAt? 31 (d.bounds 0).2).map (·.1) = some "local_1" ∧
      ∀ id ∈ List.range (d.triedSwitches 0 []).size, ((d.triedSwitches 0 []).item id).isOpenExpression = true →
        ((d.triedSwitches 0 []).item id).expression? = some (.binary .testEq (.atom "local_1" false) (.const 1)) ∨
        ((d.triedSwitches 0 []).item id).expression? = some (.binary .testEq (.atom "local_1" false) (.const 2)) := by
    rw [hd]
    decide +kernel
  obtain ⟨hopened, hsubject, htests⟩ := hfound
  obtain ⟨⟨subject, case⟩, hswitch, rfl⟩ := Option.map_eq_some_iff.1 hsubject
  obtain ⟨k, cases, last, -, -, hchain, -, hcases⟩ := switch_equates hd hopened hswitch
  refine ⟨d, case, k, cases, last, hd, hswitch, hchain, fun k' hk' => ?_⟩
  have hstands := hchain.stands k' hk'
  have hlt := (Graph.bare_of_isOpenExpression hstands.opened).1
  refine (hcases k' hk').2.2.2 ?_
  rcases htests k'.condition (List.mem_range.2 hlt) hstands.opened with htest | htest <;>
    rw [hstands.expression] at htest <;>
    exact ⟨_, _, Option.some.inj htest, Or.inl (by decide +kernel)⟩

/-- The first test has another condition behind it. -/
def guardedCases : Image := twoCases [⟨.pushiEff, some 2⟩, ⟨.fetchm, none⟩, ⟨.and, none⟩] [] 31

/-- A test with another condition behind it becomes a case as well, though it is no equality. -/
theorem not_equates_guardedCase :
    (∃ d, Pass.decompile (.ofImage guardedCases [] ⟨false, .empty⟩) = .ok () d ∧
      d.graph.liveStatements.map (·.text) = ["void start() // referenced 1 times", openBrace, "int local_1;",
        "int local_2;", "switch (local_1) " ++ openBrace, "case 1 && local_2:", "exit;", "break;", "case 2:", "exit;",
        "break;", closeBrace ++ " // end-switch", closeBrace ++ " // end-function", ""]) ∧
    ∃ d case e, d = runPhases phasesBeforeSwitches (.ofImage guardedCases [] ⟨false, .empty⟩) ∧
      ((d.triedSwitches 0 []).item 37).isOpenExpression = true ∧
      (d.triedSwitches 0 []).switchAt? 37 (d.bounds 0).2 = some ("local_1", case) ∧
      ((d.triedSwitches 0 []).item 37).expression? = some e ∧ ∀ value, ¬ e.Equates "local_1" value := by
  constructor
  · obtain ⟨d, hrun, hlines⟩ := decompilesTo_iff.1 (show decompilesTo guardedCases (fun d =>
      d.graph.liveStatements.map (·.text) = ["void start() // referenced 1 times", openBrace, "int local_1;",
        "int local_2;", "switch (local_1) " ++ openBrace, "case 1 && local_2:", "exit;", "break;", "case 2:", "exit;",
        "break;", closeBrace ++ " // end-switch", closeBrace ++ " // end-function", ""]) = true by decide +kernel)
    exact ⟨d, hrun, of_decide_eq_true hlines⟩
  · obtain ⟨d, hd⟩ : ∃ d, d = runPhases phasesBeforeSwitches (.ofImage guardedCases [] ⟨false, .empty⟩) := ⟨_, rfl⟩
    have hfound : ((d.triedSwitches 0 []).item 37).isOpenExpression = true ∧
        ((d.triedSwitches 0 []).switchAt? 37 (d.bounds 0).2).map (·.1) = some "local_1" ∧
        ((d.triedSwitches 0 []).item 37).expression? = some (.binary .and
          (.binary .testEq (.atom "local_1" false) (.const 1)) (.atom "local_2" false)) := by
      rw [hd]
      decide +kernel
    obtain ⟨hopened, hsubject, hexpression⟩ := hfound
    obtain ⟨⟨subject, case⟩, hswitch, rfl⟩ := Option.map_eq_some_iff.1 hsubject
    refine ⟨d, case, _, hd, hopened, hswitch, hexpression, ?_⟩
    rintro value ⟨left, right, hequality, -⟩
    cases hequality

end Parley
