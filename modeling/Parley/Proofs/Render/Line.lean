import Mathlib.Data.List.Nodup
import Parley.Decompile.Render
import Parley.Proofs.Decompile.Census
import Parley.Proofs.SortedMap
set_option autoImplicit false

/-!
# The line of an instruction says what it is

A text of lines is that of no other lines.  The line of an instruction begins with its position and its mnemonic, and
ends with the word behind its opcode, as the place to which the word leads or as it stands; a call of an imported
function ends with the name of the function.  So instructions that say correctly what they call and where they lead
have the same line only if they are the same.
-/

namespace Parley

/-! ## Lines of a text -/

/-- There is no line feed in a text. -/
def OneLine (text : String) : Prop := '\n' ∉ text.toList

instance (text : String) : Decidable (OneLine text) := inferInstanceAs (Decidable (¬ _))

theorem OneLine.append {a b : String} (ha : OneLine a) (hb : OneLine b) : OneLine (a ++ b) := by
  rw [OneLine, String.toList_append, List.mem_append, not_or]
  exact ⟨ha, hb⟩

/-- Lists with the same front up to an element that does not stand in it are the same in front of it and behind. -/
theorem eq_of_append_cons {α : Type} {x : α} {a b c d : List α} (ha : x ∉ a) (hb : x ∉ b)
    (h : a ++ x :: c = b ++ x :: d) : a = b ∧ c = d := by
  induction a generalizing b with
  | nil =>
    cases b with
    | nil => exact ⟨rfl, (List.cons.inj h).2⟩
    | cons y b => exact absurd ((List.cons.inj h).1 ▸ List.mem_cons_self) hb
  | cons z a ih =>
    cases b with
    | nil => exact absurd ((List.cons.inj h).1.symm ▸ List.mem_cons_self) ha
    | cons y b =>
      obtain ⟨rfl, hrest⟩ := List.cons.inj h
      obtain ⟨rfl, hbehind⟩ := ih (fun hx => ha (List.mem_cons_of_mem _ hx))
        (fun hx => hb (List.mem_cons_of_mem _ hx)) hrest
      exact ⟨rfl, hbehind⟩

theorem unlines_append (front behind : List String) : unlines (front ++ behind) = unlines front ++ unlines behind := by
  apply String.toList_injective
  simp [unlines, String.toList_join]

theorem toList_unlines_cons (line : String) (lines : List String) :
    (unlines (line :: lines)).toList = line.toList ++ '\n' :: (unlines lines).toList := by
  simp [unlines, String.toList_join]

/-- A text of lines is that of no other lines. -/
theorem eq_of_unlines_eq {a b : List String} (ha : ∀ line ∈ a, OneLine line) (hb : ∀ line ∈ b, OneLine line)
    (h : unlines a = unlines b) : a = b := by
  induction a generalizing b with
  | nil =>
    cases b with
    | nil => rfl
    | cons line rest =>
      have htext := congrArg String.toList h
      rw [toList_unlines_cons] at htext
      simp [unlines, String.join] at htext
  | cons line rest ih =>
    cases b with
    | nil =>
      have htext := congrArg String.toList h
      rw [toList_unlines_cons] at htext
      simp [unlines, String.join] at htext
    | cons line' rest' =>
      have htext := congrArg String.toList h
      rw [toList_unlines_cons, toList_unlines_cons] at htext
      obtain ⟨hline, hrest⟩ :=
        eq_of_append_cons (ha line List.mem_cons_self) (hb line' List.mem_cons_self) htext
      rw [String.toList_injective hline, ih (fun _ hmem => ha _ (List.mem_cons_of_mem _ hmem))
        (fun _ hmem => hb _ (List.mem_cons_of_mem _ hmem)) (String.toList_injective hrest)]

theorem oneLine_hexWord (word : UInt16) : OneLine (Text.hexWord word) := Text.notMem_hexWord (by decide)

theorem oneLine_toString (count : Nat) : OneLine (toString count) := by
  intro h
  rw [Nat.toString_eq_ofList_toDigits, String.toList_ofList] at h
  exact absurd (Nat.isDigit_of_mem_toDigits (by decide) (by decide) h) (by decide)

/-! ## Opcodes -/

namespace Opcode

theorem mem_all (opcode : Opcode) : opcode ∈ all := List.mem_of_getElem? (ofWord?_toWord opcode)

/-- Different opcodes have different mnemonics. -/
theorem mnemonic_inj {a b : Opcode} (h : a.mnemonic = b.mnemonic) : a = b :=
  List.inj_on_of_nodup_map (by decide : (all.map mnemonic).Nodup) (mem_all a) (mem_all b) h

/-- Different words stand for different opcodes. -/
theorem ofWord?_inj {a b : UInt16} {opcode : Opcode} (ha : ofWord? a = some opcode) (hb : ofWord? b = some opcode) :
    a = b :=
  UInt16.toNat_inj.1 ((List.getElem?_inj (List.getElem?_eq_some_iff.1 ha).1 (by decide : all.Nodup)).1
    (Eq.trans ha hb.symm))

theorem isAlphanum_of_mem_mnemonic (opcode : Opcode) :
    ∀ c ∈ opcode.mnemonic.toList, c.isAlphanum = true ∨ c = '_' := by
  have hall : opcode.mnemonic.toList.all (fun c => c.isAlphanum || c == '_') = true := by
    cases opcode <;> decide
  intro c hc
  simpa using List.all_eq_true.1 hall c hc

theorem blank_notMem_mnemonic (opcode : Opcode) : ' ' ∉ opcode.mnemonic.toList := fun h =>
  absurd (isAlphanum_of_mem_mnemonic opcode _ h) (by decide)

theorem oneLine_mnemonic (opcode : Opcode) : OneLine opcode.mnemonic := fun h =>
  absurd (isAlphanum_of_mem_mnemonic opcode _ h) (by decide)

end Opcode

/-! ## What stands behind the mnemonic -/

/-- An instruction says which imported function it calls, and one that leads nowhere either says nothing. -/
structure Item.Tells (imports : ImportTable) (item : Item) : Prop where
  calls : item.opcode? = some .calli → ∃ imported,
    imports.get? item.operandOrZero = some imported ∧ item.targetLabel? = some imported.name
  rests : item.opcode? ≠ some .calli → item.leadsTo? = none → item.targetLabel? = none

/-- An instruction says which imported function it calls, or where it leads, and nothing else. -/
structure Item.Aimed (imports : ImportTable) (item : Item) : Prop extends item.Tells imports where
  leads : ∀ target, item.leadsTo? = some target →
    item.targetPos? = some target ∧ ∃ label, item.targetLabel? = some label ∧ OneLine label

/-- The word behind an opcode as a listing shows it: the position to which it leads, or the word itself. -/
def Instruction.shownOperand (opcode : Opcode) (pos operand : UInt16) : UInt16 :=
  ((Instruction.mk opcode (some operand)).jumpTarget? pos).getD operand

theorem Instruction.shownOperand_inj {opcode : Opcode} {pos a b : UInt16}
    (h : shownOperand opcode pos a = shownOperand opcode pos b) : a = b := by
  unfold shownOperand jumpTarget? at h
  cases opcode <;> simpa using h

namespace Item

variable {imports : ImportTable} {item : Item} {op : OpcodeItem} {opcode : Opcode}

theorem operandText_of_operand_eq_none (hcalli : opcode ≠ .calli) (hoperand : op.operand = none) :
    operandText op opcode = "" := by
  unfold operandText
  cases hlabel : op.targetLabel <;> cases opcode <;> simp_all

/-- A call of an imported function shows the name of the function. -/
theorem Aimed.operandText_calli (h : item.Aimed imports) (hop : item.opcodeItem? = some op)
    (hopcode : op.opcode = some .calli) : ∃ imported,
      imports.get? (op.operand.getD 0) = some imported ∧ operandText op .calli = " " ++ imported.name := by
  obtain ⟨imported, himported, hname⟩ := h.calls (by rw [opcode?, hop, Option.bind_some, hopcode])
  rw [operandOrZero, hop, Option.bind_some] at himported
  rw [targetLabel?, hop, Option.bind_some] at hname
  refine ⟨imported, himported, ?_⟩
  unfold operandText
  rw [hname]

/-- Any other instruction with a word behind its opcode shows that word at the end of its line. -/
theorem Aimed.exists_operandText (h : item.Aimed imports) (hop : item.opcodeItem? = some op)
    (hopcode : op.opcode = some opcode) (hcalli : opcode ≠ .calli) {operand : UInt16}
    (hoperand : op.operand = some operand) : ∃ front, OneLine front ∧
      operandText op opcode = front ++ Text.hexWord (Instruction.shownOperand opcode item.pos operand) := by
  have hleads : item.leadsTo? = ((Instruction.mk opcode (some operand)).jumpTarget? item.pos).filter
      fun target => ¬ (opcode = .call ∧ target = nowhere) := by
    rw [leadsTo?, hop, Option.bind_some, hopcode, Option.bind_some, hoperand]
  rcases Option.eq_none_or_eq_some item.leadsTo? with hnone | ⟨target, hsome⟩
  · -- The word leads nowhere and is shown as it is.
    have hlabel : op.targetLabel = none := by
      have := h.rests (by simpa [opcode?, hop, hopcode] using hcalli) hnone
      simpa [targetLabel?, hop] using this
    have hshown : Instruction.shownOperand opcode item.pos operand = operand := by
      rw [Instruction.shownOperand]
      rcases Option.eq_none_or_eq_some ((Instruction.mk opcode (some operand)).jumpTarget? item.pos) with
        hjump | ⟨target, hjump⟩
      · rw [hjump, Option.getD_none]
      · -- Only a call to nowhere has a target and leads nowhere.
        rw [hnone, hjump, Option.filter_some] at hleads
        obtain ⟨rfl, rfl⟩ : opcode = .call ∧ target = nowhere := by
          by_contra hnot
          rw [if_pos (decide_eq_true hnot)] at hleads
          cases hleads
        rw [hjump, Option.getD_some]
        exact (Option.some.inj hjump).symm
    refine ⟨" 0x", by decide, ?_⟩
    rw [hshown]
    unfold operandText
    rw [hlabel, hoperand]
    cases opcode <;> rfl
  · obtain ⟨hpos, label, hlabel, hline⟩ := h.leads target hsome
    rw [targetPos?, hop, Option.bind_some] at hpos
    rw [targetLabel?, hop, Option.bind_some] at hlabel
    have hjump : (Instruction.mk opcode (some operand)).jumpTarget? item.pos = some target :=
      (Option.filter_eq_some_iff.1 (hleads.symm.trans hsome)).1
    refine ⟨" " ++ label ++ " // target: ", (OneLine.append (by decide) hline).append (by decide), ?_⟩
    rw [Instruction.shownOperand, hjump, Option.getD_some]
    unfold operandText
    rw [hlabel, hoperand, hpos]
    unfold Instruction.jumpTarget? at hjump
    cases opcode <;> first | rfl | cases hjump

/-- Behind the mnemonic stands nothing, or a blank comes first. -/
theorem takeWhile_operandText (op : OpcodeItem) (opcode : Opcode) :
    (operandText op opcode).toList.takeWhile (· ≠ ' ') = [] := by
  unfold operandText
  split <;> simp

/-! ## The line of an instruction -/

/-- An instruction has the opcode of its word, and where it calls an imported function it is whole. -/
structure Readable (item : Item) : Prop where
  opcode : ∀ op, item.opcodeItem? = some op → op.opcode = Opcode.ofWord? op.word
  operand : ∀ op, item.opcodeItem? = some op → op.opcode = none → op.operand = none
  whole : ∀ op, item.opcodeItem? = some op → op.opcode = some .calli → op.operand.isSome = true

/-- What an instruction line says behind the position. -/
def saying (op : OpcodeItem) : String :=
  match op.opcode with
  | none => "??? (" ++ Text.hexWordMarked op.word ++ ")"
  | some opcode => opcode.mnemonic ++ operandText op opcode

theorem opcodeLine?_eq (hop : item.opcodeItem? = some op) :
    item.opcodeLine? = some (Text.hexWord item.pos ++ " " ++ saying op) := by
  rw [opcodeLine?, hop, Option.map_some, saying]
  cases op.opcode with
  | none => simp only [String.append_assoc]; rfl
  | some opcode => simp only [String.append_assoc]

/-- A word that stands for no opcode is not shown as an instruction is. -/
theorem saying_ne {op op' : OpcodeItem} (hop : op.opcode = none) (hop' : op'.opcode = some opcode) :
    saying op ≠ saying op' := by
  intro h
  have htext := congrArg String.toList h
  simp only [saying, hop, hop', String.toList_append] at htext
  have hne : opcode.mnemonic.toList ≠ [] := by cases opcode <;> decide
  obtain ⟨first, rest, hmnemonic⟩ := List.exists_cons_of_ne_nil hne
  rw [hmnemonic] at htext
  have hfirst : '?' = first := (List.cons.inj htext).1
  exact absurd (opcode.isAlphanum_of_mem_mnemonic '?' (by rw [hmnemonic, hfirst]; exact List.mem_cons_self))
    (by decide)

/-- What is said of instructions with different opcodes is different. -/
theorem opcode_eq_of_saying_eq {op op' : OpcodeItem} {opcode opcode' : Opcode} (hop : op.opcode = some opcode)
    (hop' : op'.opcode = some opcode') (h : saying op = saying op') :
    opcode = opcode' ∧ operandText op opcode = operandText op' opcode' := by
  simp only [saying, hop, hop'] at h
  have hfirst (op : OpcodeItem) (opcode : Opcode) :
      (opcode.mnemonic ++ operandText op opcode).toList.takeWhile (· ≠ ' ') = opcode.mnemonic.toList := by
    rw [String.toList_append, List.takeWhile_append_of_pos, takeWhile_operandText, List.append_nil]
    intro c hc
    exact decide_eq_true fun hblank => opcode.blank_notMem_mnemonic (hblank ▸ hc)
  have hmnemonic : opcode.mnemonic = opcode'.mnemonic :=
    String.toList_injective ((hfirst op opcode).symm.trans (h ▸ hfirst op' opcode'))
  rw [hmnemonic, String.append_right_inj] at h
  exact ⟨Opcode.mnemonic_inj hmnemonic, h⟩

/-- Calls of imported functions with different ids are shown differently if the functions have different names. -/
theorem operand_eq_of_calli {item' : Item} {op' : OpcodeItem}
    (hnames : (imports.entries.map (·.2.name)).Nodup) (h : item.Aimed imports) (h' : item'.Aimed imports)
    (hop : item.opcodeItem? = some op) (hop' : item'.opcodeItem? = some op') (hopcode : op.opcode = some .calli)
    (hopcode' : op'.opcode = some .calli) (htext : operandText op .calli = operandText op' .calli) :
    op.operand.getD 0 = op'.operand.getD 0 := by
  obtain ⟨imported, himported, hshown⟩ := h.operandText_calli hop hopcode
  obtain ⟨imported', himported', hshown'⟩ := h'.operandText_calli hop' hopcode'
  rw [hshown, hshown', String.append_right_inj] at htext
  have hentry := List.inj_on_of_nodup_map hnames (SortedMap.mem_of_get? himported)
    (SortedMap.mem_of_get? himported') htext
  exact congrArg Prod.fst hentry

/-- Other instructions with the same opcode at the same position are shown differently if the words behind the opcode
are different. -/
theorem operand_eq_of_operandText_eq {item' : Item} {op' : OpcodeItem} (h : item.Aimed imports)
    (h' : item'.Aimed imports) (hop : item.opcodeItem? = some op) (hop' : item'.opcodeItem? = some op')
    (hopcode : op.opcode = some opcode) (hopcode' : op'.opcode = some opcode) (hcalli : opcode ≠ .calli)
    (hpos : item.pos = item'.pos) (htext : operandText op opcode = operandText op' opcode) :
    op.operand = op'.operand := by
  have hlong (front : String) (word : UInt16) : front ++ Text.hexWord word ≠ "" := by
    intro hempty
    have hlength := congrArg (fun text => text.toList.length) hempty
    rw [String.toList_append, List.length_append, Text.length_hexWord] at hlength
    cases hlength
  cases hoperand : op.operand with
  | none =>
    cases hoperand' : op'.operand with
    | none => rfl
    | some operand' =>
      obtain ⟨front', -, hshown'⟩ := h'.exists_operandText hop' hopcode' hcalli hoperand'
      rw [operandText_of_operand_eq_none hcalli hoperand, hshown'] at htext
      exact absurd htext.symm (hlong _ _)
  | some operand =>
    obtain ⟨front, -, hshown⟩ := h.exists_operandText hop hopcode hcalli hoperand
    cases hoperand' : op'.operand with
    | none =>
      rw [operandText_of_operand_eq_none hcalli hoperand', hshown] at htext
      exact absurd htext (hlong _ _)
    | some operand' =>
      obtain ⟨front', -, hshown'⟩ := h'.exists_operandText hop' hopcode' hcalli hoperand'
      have hchars := congrArg String.toList (hshown.symm.trans (htext.trans hshown'))
      rw [String.toList_append, String.toList_append] at hchars
      have hword := (List.append_inj' hchars (by rw [Text.length_hexWord, Text.length_hexWord])).2
      rw [← hpos] at hword
      rw [Instruction.shownOperand_inj (Text.hexWord_inj.1 (String.toList_injective hword))]

/-- Items that are shown alike stand for the same instruction at the same position. -/
theorem code_eq_of_opcodeLine?_eq {item' : Item} (hnames : (imports.entries.map (·.2.name)).Nodup)
    (h : item.Aimed imports) (h' : item'.Aimed imports) (hreadable : item.Readable) (hreadable' : item'.Readable)
    (hopcodeItem : item.isOpcodeItem = true) (hopcodeItem' : item'.isOpcodeItem = true)
    (hline : item.opcodeLine? = item'.opcodeLine?) : item.code = item'.code := by
  obtain ⟨op, hop⟩ := Option.isSome_iff_exists.1 hopcodeItem
  obtain ⟨op', hop'⟩ := Option.isSome_iff_exists.1 hopcodeItem'
  rw [opcodeLine?_eq hop, opcodeLine?_eq hop', Option.some.injEq] at hline
  have hchars := congrArg String.toList hline
  simp only [String.toList_append] at hchars
  rw [List.append_assoc, List.append_assoc] at hchars
  obtain ⟨hword, hbehind⟩ := eq_of_append_cons (x := ' ') (Text.notMem_hexWord (by decide))
    (Text.notMem_hexWord (by decide)) hchars
  have hpos : item.pos = item'.pos := Text.hexWord_inj.1 (String.toList_injective hword)
  have hsaying : saying op = saying op' := String.toList_injective hbehind
  suffices hsame : op.word = op'.word ∧ op.opcode = op'.opcode ∧ op.operand = op'.operand by
    rw [code, code, hop, hop', Option.map_some, Option.map_some, hpos, hsame.1, hsame.2.1, hsame.2.2]
  have hknown := hreadable.opcode op hop
  have hknown' := hreadable'.opcode op' hop'
  cases hopcode : op.opcode with
  | none =>
    cases hopcode' : op'.opcode with
    | none =>
      refine ⟨?_, rfl, (hreadable.operand op hop hopcode).trans (hreadable'.operand op' hop' hopcode').symm⟩
      simp only [saying, hopcode, hopcode', Text.hexWordMarked] at hsaying
      rw [String.append_left_inj, String.append_right_inj, String.append_right_inj] at hsaying
      exact Text.hexWord_inj.1 hsaying
    | some opcode' => exact absurd hsaying (saying_ne hopcode hopcode')
  | some opcode =>
    cases hopcode' : op'.opcode with
    | none => exact absurd hsaying.symm (saying_ne hopcode' hopcode)
    | some opcode' =>
      obtain ⟨rfl, htext⟩ := opcode_eq_of_saying_eq hopcode hopcode' hsaying
      refine ⟨Opcode.ofWord?_inj (hknown.symm.trans hopcode) (hknown'.symm.trans hopcode'), rfl, ?_⟩
      by_cases hcalli : opcode = .calli
      · subst hcalli
        obtain ⟨id, hid⟩ := Option.isSome_iff_exists.1 (hreadable.whole op hop hopcode)
        obtain ⟨id', hid'⟩ := Option.isSome_iff_exists.1 (hreadable'.whole op' hop' hopcode')
        have hsame := operand_eq_of_calli hnames h h' hop hop' hopcode hopcode' htext
        rw [hid, hid', Option.getD_some, Option.getD_some] at hsame
        rw [hid, hid', hsame]
      · exact operand_eq_of_operandText_eq h h' hop hop' hopcode hopcode' hcalli hpos htext

theorem Aimed.oneLine (h : item.Aimed imports) (hlines : ∀ entry ∈ imports.entries, OneLine entry.2.name)
    {line : String} (hline : item.opcodeLine? = some line) : OneLine line := by
  obtain ⟨op, hop, -⟩ := Option.map_eq_some_iff.1 hline
  rw [opcodeLine?_eq hop, Option.some.injEq] at hline
  subst hline
  refine ((oneLine_hexWord _).append (by decide)).append ?_
  unfold saying
  cases hopcode : op.opcode with
  | none => exact ((OneLine.append (by decide) (OneLine.append (by decide) (oneLine_hexWord _))).append (by decide))
  | some opcode =>
    refine (Opcode.oneLine_mnemonic opcode).append ?_
    by_cases hcalli : opcode = .calli
    · subst hcalli
      obtain ⟨imported, himported, hshown⟩ := h.operandText_calli hop hopcode
      rw [hshown]
      exact OneLine.append (by decide) (hlines _ (SortedMap.mem_of_get? himported))
    · cases hoperand : op.operand with
      | none =>
        rw [operandText_of_operand_eq_none hcalli hoperand]
        decide
      | some operand =>
        obtain ⟨front, hfront, hshown⟩ := h.exists_operandText hop hopcode hcalli hoperand
        rw [hshown]
        exact hfront.append (oneLine_hexWord _)

end Item

end Parley
