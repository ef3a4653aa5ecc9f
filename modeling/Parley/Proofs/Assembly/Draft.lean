import Mathlib.Algebra.Ring.Nat
import Parley.Assembly.Assemble
import Parley.Proofs.Fallible
set_option autoImplicit false

/-!
# The first pass of the assembler

The statement that a line spells does not depend on the number of the line.  The first pass places the
statements of the lines one behind the other: each stands where the sizes of the lines before it add up to,
and a label where those of the lines before its definition do.  A label has one definition.
-/

namespace Parley.Assembly

open Fallible

/-! ## The statement of a line -/

theorem Operand.parse_eq_ok {line : Nat} {text : List Char} {operand : Operand} :
    Operand.parse line text = .ok operand ↔ Operand.ofText? text = some operand := by
  unfold Operand.parse
  cases Operand.ofText? text <;> simp

/-- The words of a line spell a statement, or nothing. -/
inductive Spells : List (List Char) → Option Statement → Prop
  | nothing : Spells [] none
  | raw {name text : List Char} {value : UInt16}
      (hname : (String.ofList name).map Char.toLower = rawMnemonic)
      (hvalue : Operand.ofText? text = some (.value value)) : Spells [name, text] (some (.word value))
  | alone {name : List Char} {opcode : Opcode}
      (hname : (String.ofList name).map Char.toLower ≠ rawMnemonic)
      (hopcode : Opcode.ofMnemonic? (String.ofList name) = some opcode)
      (htakes : opcode.takesOperand = false) : Spells [name] (some (.instruction opcode none))
  | applied {name text : List Char} {opcode : Opcode} {operand : Operand}
      (hname : (String.ofList name).map Char.toLower ≠ rawMnemonic)
      (hopcode : Opcode.ofMnemonic? (String.ofList name) = some opcode)
      (htakes : opcode.takesOperand = true) (hoperand : Operand.ofText? text = some operand) :
      Spells [name, text] (some (.instruction opcode (some operand)))

theorem parseRaw_eq_ok {line : Nat} {operand : Option (List Char)} {statement : Statement}
    (h : parseRaw line operand = .ok statement) :
    ∃ text value, operand = some text ∧ Operand.ofText? text = some (.value value) ∧
      statement = .word value := by
  unfold parseRaw at h
  cases operand with
  | none => cases h
  | some text =>
    dsimp only at h
    split at h
    · rename_i value heq
      cases h
      exact ⟨text, value, rfl, Operand.parse_eq_ok.1 heq, rfl⟩
    · cases h
    · cases h

theorem parseInstruction_eq_ok {line : Nat} {name : String} {operand : Option (List Char)}
    {statement : Statement} (h : parseInstruction line name operand = .ok statement) :
    ∃ opcode, Opcode.ofMnemonic? name = some opcode ∧
      ((opcode.takesOperand = false ∧ operand = none ∧ statement = .instruction opcode none) ∨
        (opcode.takesOperand = true ∧ ∃ text read, operand = some text ∧
          Operand.ofText? text = some read ∧ statement = .instruction opcode (some read))) := by
  unfold parseInstruction at h
  cases hname : Opcode.ofMnemonic? name with
  | none =>
    rw [hname] at h
    cases h
  | some opcode =>
    rw [hname] at h
    refine ⟨opcode, rfl, ?_⟩
    dsimp only at h
    split at h
    · rename_i text htakes
      obtain ⟨read, hread, rfl⟩ := except_map_eq_ok.1 h
      exact Or.inr ⟨htakes, text, read, rfl, Operand.parse_eq_ok.1 hread, rfl⟩
    · cases h
    · cases h
    · rename_i htakes
      cases h
      exact Or.inl ⟨htakes, rfl, rfl⟩

theorem spells_of_parseStatement {line : Nat} {words : List (List Char)} {statement : Option Statement}
    (h : parseStatement line words = .ok statement) : Spells words statement := by
  unfold parseStatement at h
  split at h
  · cases h
    exact .nothing
  · cases h
  · rename_i name rest hshort
    dsimp only at h
    split at h
    · rename_i hraw
      obtain ⟨_, hparse, rfl⟩ := except_map_eq_ok.1 h
      obtain ⟨text, value, hhead, hvalue, rfl⟩ := parseRaw_eq_ok hparse
      obtain ⟨behind, rfl⟩ := List.head?_eq_some_iff.1 hhead
      cases behind with
      | nil => exact .raw hraw hvalue
      | cons extra more => exact (hshort text extra more rfl).elim
    · rename_i hname
      obtain ⟨_, hparse, rfl⟩ := except_map_eq_ok.1 h
      obtain ⟨opcode, hopcode, ⟨htakes, hnone, rfl⟩ | ⟨htakes, text, read, hhead, hread, rfl⟩⟩ :=
        parseInstruction_eq_ok hparse
      · cases List.head?_eq_none_iff.1 hnone
        exact .alone hname hopcode htakes
      · obtain ⟨behind, rfl⟩ := List.head?_eq_some_iff.1 hhead
        cases behind with
        | nil => exact .applied hname hopcode htakes hread
        | cons extra more => exact (hshort text extra more rfl).elim

/-- What the words of a line spell does not depend on its number. -/
theorem parseStatement_of_spells {words : List (List Char)} {statement : Option Statement}
    (h : Spells words statement) (line : Nat) : parseStatement line words = .ok statement := by
  cases h with
  | nothing => rfl
  | raw hname hvalue =>
    simp only [parseStatement, hname, if_true, List.head?_cons, parseRaw,
      Operand.parse_eq_ok.2 hvalue]
    rfl
  | alone hname hopcode htakes =>
    simp only [parseStatement, hname, if_false, List.head?_nil, parseInstruction, hopcode, htakes]
    rfl
  | applied hname hopcode htakes hoperand =>
    simp only [parseStatement, hname, if_false, List.head?_cons, parseInstruction, hopcode, htakes,
      Operand.parse_eq_ok.2 hoperand]
    rfl

/-- The statement of a line of text, none if it has none. -/
def statementOf? (text : List Char) : Option Statement :=
  match parseStatement 1 (Line.ofText text).words with
  | .ok statement => statement
  | .error _ => none

theorem statementOf?_eq {line : Nat} {text : List Char} {statement : Option Statement}
    (h : parseStatement line (Line.ofText text).words = .ok statement) :
    statementOf? text = statement := by
  rw [statementOf?, parseStatement_of_spells (spells_of_parseStatement h) 1]

/-- An instruction has an operand exactly if its opcode takes one. -/
def Statement.WellFormed : Statement → Prop
  | .word _ => True
  | .instruction opcode operand => operand.isSome = opcode.takesOperand

theorem wellFormed_of_spells {words : List (List Char)} {statement : Statement}
    (h : Spells words (some statement)) : statement.WellFormed := by
  cases h with
  | raw _ _ => trivial
  | alone _ _ htakes => exact htakes.symm
  | applied _ _ htakes _ => exact htakes.symm

/-! ## Positions of lines -/

/-- The number of words that a line puts into the code. -/
def lineSize (text : List Char) : Nat :=
  match statementOf? text with
  | some statement => statement.size
  | none => 0

/-- The number of words that the lines before a line put into the code. -/
def startOf (texts : List (List Char)) (index : Nat) : Nat := ((texts.take index).map lineSize).sum

/-- A line of the text defines a label. -/
def Defines (texts : List (List Char)) (index : Nat) (name : String) : Prop :=
  ∃ text, texts[index]? = some text ∧ name ∈ (Line.ofText text).labels

variable {texts : List (List Char)} {text : List Char} {index : Nat} {name : String}

theorem startOf_append (texts more : List (List Char)) (hindex : index ≤ texts.length) :
    startOf (texts ++ more) index = startOf texts index := by
  unfold startOf
  rw [List.take_append_of_le_length hindex]

theorem startOf_concat (texts : List (List Char)) (text : List Char) :
    startOf (texts ++ [text]) (texts ++ [text]).length = startOf texts texts.length + lineSize text := by
  unfold startOf
  rw [List.take_length, List.take_length, List.map_append, List.sum_append, List.map_singleton,
    List.sum_singleton]

theorem lt_of_getElem? (h : texts[index]? = some text) : index < texts.length :=
  (List.getElem?_eq_some_iff.1 h).1

theorem Defines.lt (h : Defines texts index name) : index < texts.length := by
  obtain ⟨text, htext, -⟩ := h
  exact lt_of_getElem? htext

theorem getElem?_concat {found : List Char} :
    (texts ++ [text])[index]? = some found ↔
      texts[index]? = some found ∨ index = texts.length ∧ text = found := by
  rw [List.getElem?_append]
  split
  · rename_i hlt
    constructor
    · exact Or.inl
    · rintro (h | ⟨rfl, -⟩)
      · exact h
      · exact absurd hlt (Nat.lt_irrefl _)
  · rename_i hge
    rw [List.getElem?_eq_none (Nat.not_lt.1 hge)]
    constructor
    · intro h
      have hzero : index - texts.length = 0 := by
        have := (List.getElem?_eq_some_iff.1 h).1
        simpa using this
      rw [hzero] at h
      exact Or.inr ⟨by omega, Option.some.inj h⟩
    · rintro (h | ⟨rfl, rfl⟩)
      · cases h
      · rw [Nat.sub_self]
        rfl

theorem defines_concat :
    Defines (texts ++ [text]) index name ↔
      Defines texts index name ∨ index = texts.length ∧ name ∈ (Line.ofText text).labels := by
  unfold Defines
  constructor
  · rintro ⟨found, hfound, hname⟩
    rcases getElem?_concat.1 hfound with hbefore | ⟨hlast, rfl⟩
    · exact Or.inl ⟨found, hbefore, hname⟩
    · exact Or.inr ⟨hlast, hname⟩
  · rintro (⟨found, hfound, hname⟩ | ⟨hlast, hname⟩)
    · exact ⟨found, getElem?_concat.2 (Or.inl hfound), hname⟩
    · exact ⟨text, getElem?_concat.2 (Or.inr ⟨hlast, rfl⟩), hname⟩

/-! ## The labels of a line -/

/-- What the definition of labels at the present position does to a draft. -/
structure Defined (names : List String) (draft draft' : Draft) : Prop where
  placed : draft'.placed = draft.placed
  pos : draft'.pos = draft.pos
  fresh : ∀ name ∈ names, draft.labels.lookup name = none
  lookup : ∀ name, draft'.labels.lookup name =
    if name ∈ names then some draft.pos else draft.labels.lookup name

theorem define_eq_ok {line : Nat} {draft draft' : Draft} {label : String}
    (h : draft.define line label = .ok draft') :
    draft.labels.lookup label = none ∧
      draft' = { draft with labels := (label, draft.pos) :: draft.labels } := by
  unfold Draft.define at h
  split at h
  · cases h
  · rename_i hnone
    cases h
    exact ⟨Option.not_isSome_iff_eq_none.1 hnone, rfl⟩

theorem defined_of_foldlM {line : Nat} {names : List String} {draft draft' : Draft}
    (h : names.foldlM (Draft.define line) draft = .ok draft') : Defined names draft draft' := by
  induction names generalizing draft with
  | nil =>
    cases h
    exact ⟨rfl, rfl, fun name hname => absurd hname List.not_mem_nil, fun name => rfl⟩
  | cons label rest ih =>
    rw [List.foldlM_cons] at h
    obtain ⟨draft₁, hdefine, hrest⟩ := except_bind_eq_ok.1 h
    obtain ⟨hfresh, rfl⟩ := define_eq_ok hdefine
    have hdefined := ih hrest
    refine ⟨hdefined.placed, hdefined.pos, fun name hname => ?_, fun name => ?_⟩
    · rcases List.mem_cons.1 hname with rfl | hname
      · exact hfresh
      · have hnone := hdefined.fresh name hname
        rw [List.lookup_cons] at hnone
        split at hnone
        · cases hnone
        · exact hnone
    · rw [hdefined.lookup name, List.lookup_cons]
      by_cases hlabel : name = label
      · simp [hlabel]
      · rw [beq_eq_false_iff_ne.2 hlabel]
        simp [hlabel]

theorem addLine_eq_ok {draft draft' : Draft} {line : Nat} {text : List Char}
    (h : draft.addLine line text = .ok draft') :
    Spells (Line.ofText text).words (statementOf? text) ∧
      ∃ draft₁, Defined (Line.ofText text).labels draft draft₁ ∧ draft' =
        match statementOf? text with
        | some statement => draft₁.place line statement
        | none => draft₁ := by
  unfold Draft.addLine at h
  obtain ⟨draft₁, hlabels, h⟩ := except_bind_eq_ok.1 h
  obtain ⟨statement, hparse, h⟩ := except_bind_eq_ok.1 h
  rw [statementOf?_eq hparse]
  refine ⟨spells_of_parseStatement hparse, draft₁, defined_of_foldlM hlabels, ?_⟩
  cases statement with
  | none =>
    cases h
    rfl
  | some statement =>
    cases h
    rfl

/-! ## The draft of the lines so far -/

/-- The number of words of placed statements. -/
def wordCount (placed : List Placed) : Nat := (placed.map fun item => item.statement.size).sum

/-- What the first pass has made of the lines so far. -/
structure Drafted (texts : List (List Char)) (draft : Draft) : Prop where
  spelled : ∀ text ∈ texts, Spells (Line.ofText text).words (statementOf? text)
  wellFormed : ∀ item ∈ draft.placed, item.statement.WellFormed
  pos : draft.pos = UInt16.ofNat (startOf texts texts.length)
  size : wordCount draft.placed = startOf texts texts.length
  /-- The statement of a line is placed where the lines before it end, behind their statements. -/
  placed : ∀ index text statement, texts[index]? = some text → statementOf? text = some statement →
    ∃ later line earlier,
      draft.placed = later ++ ⟨line, UInt16.ofNat (startOf texts index), statement⟩ :: earlier ∧
      wordCount earlier = startOf texts index
  /-- A label has the position of the line that defines it. -/
  labels : ∀ name target, draft.labels.lookup name = some target ↔
    ∃ index, Defines texts index name ∧ target = UInt16.ofNat (startOf texts index)
  unique : ∀ name index other, Defines texts index name → Defines texts other name → index = other

theorem drafted_empty : Drafted [] .empty where
  spelled _ hnone := absurd hnone List.not_mem_nil
  wellFormed _ hnone := absurd hnone List.not_mem_nil
  pos := rfl
  size := rfl
  placed _ _ _ hnone := by cases hnone
  labels name target := by
    constructor
    · intro h
      cases h
    · rintro ⟨index, hdefines, -⟩
      exact absurd hdefines.lt (Nat.not_lt_zero _)
  unique _ _ _ hdefines := absurd hdefines.lt (Nat.not_lt_zero _)

variable {draft draft' : Draft} {line : Nat}

/-- A label that is defined before is no label of the next line. -/
theorem Drafted.not_redefined (h : Drafted texts draft)
    (hdefined : Defined (Line.ofText text).labels draft draft') (hbefore : Defines texts index name) :
    name ∉ (Line.ofText text).labels := by
  intro hname
  have hsome := (h.labels name _).2 ⟨index, hbefore, rfl⟩
  cases (hdefined.fresh name hname).symm.trans hsome

theorem Drafted.labels_concat (h : Drafted texts draft)
    (hdefined : Defined (Line.ofText text).labels draft draft') (name : String) (target : UInt16) :
    draft'.labels.lookup name = some target ↔
      ∃ index, Defines (texts ++ [text]) index name ∧
        target = UInt16.ofNat (startOf (texts ++ [text]) index) := by
  rw [hdefined.lookup]
  constructor
  · split
    · rename_i hname
      intro heq
      refine ⟨texts.length, defines_concat.2 (Or.inr ⟨rfl, hname⟩), ?_⟩
      rw [startOf_append _ _ (Nat.le_refl _), ← h.pos]
      exact (Option.some.inj heq).symm
    · intro heq
      obtain ⟨index, hdefines, rfl⟩ := (h.labels name target).1 heq
      refine ⟨index, defines_concat.2 (Or.inl hdefines), ?_⟩
      rw [startOf_append _ _ (Nat.le_of_lt hdefines.lt)]
  · rintro ⟨index, hdefines, rfl⟩
    rcases defines_concat.1 hdefines with hbefore | ⟨rfl, hname⟩
    · rw [if_neg (h.not_redefined hdefined hbefore), startOf_append _ _ (Nat.le_of_lt hbefore.lt)]
      exact (h.labels name _).2 ⟨index, hbefore, rfl⟩
    · rw [if_pos hname, startOf_append _ _ (Nat.le_refl _), ← h.pos]

theorem Drafted.unique_concat (h : Drafted texts draft)
    (hdefined : Defined (Line.ofText text).labels draft draft') (name : String) (index other : Nat)
    (hindex : Defines (texts ++ [text]) index name) (hother : Defines (texts ++ [text]) other name) :
    index = other := by
  rcases defines_concat.1 hindex with hbefore | ⟨rfl, hname⟩
  · rcases defines_concat.1 hother with hotherBefore | ⟨rfl, hotherName⟩
    · exact h.unique name index other hbefore hotherBefore
    · exact absurd hotherName (h.not_redefined hdefined hbefore)
  · rcases defines_concat.1 hother with hotherBefore | ⟨rfl, -⟩
    · exact absurd hname (h.not_redefined hdefined hotherBefore)
    · rfl

/-- What a line adds to the placed statements. -/
theorem Drafted.placed_concat (h : Drafted texts draft) (front : List Placed)
    (hplaced : draft'.placed = front ++ draft.placed)
    (hfront : ∀ statement, statementOf? text = some statement →
      ∃ line, front = [⟨line, UInt16.ofNat (startOf texts texts.length), statement⟩])
    (index : Nat) (found : List Char) (statement : Statement)
    (hfound : (texts ++ [text])[index]? = some found) (hstatement : statementOf? found = some statement) :
    ∃ later line earlier,
      draft'.placed =
        later ++ ⟨line, UInt16.ofNat (startOf (texts ++ [text]) index), statement⟩ :: earlier ∧
      wordCount earlier = startOf (texts ++ [text]) index := by
  rcases getElem?_concat.1 hfound with hbefore | ⟨rfl, rfl⟩
  · obtain ⟨later, line, earlier, hsplit, hsize⟩ := h.placed index found statement hbefore hstatement
    rw [startOf_append _ _ (Nat.le_of_lt (lt_of_getElem? hbefore))]
    refine ⟨front ++ later, line, earlier, ?_, hsize⟩
    rw [hplaced, hsplit, List.append_assoc]
  · obtain ⟨line, rfl⟩ := hfront statement hstatement
    rw [startOf_append _ _ (Nat.le_refl _)]
    exact ⟨[], line, draft.placed, hplaced, h.size⟩

/-- One more line is taken in. -/
theorem Drafted.addLine (h : Drafted texts draft) (hline : draft.addLine line text = .ok draft') :
    Drafted (texts ++ [text]) draft' := by
  obtain ⟨hspells, draft₁, hdefined, rfl⟩ := addLine_eq_ok hline
  have hspelled : ∀ found ∈ texts ++ [text], Spells (Line.ofText found).words (statementOf? found) := by
    intro found hfound
    rcases List.mem_append.1 hfound with hbefore | hlast
    · exact h.spelled found hbefore
    · rwa [List.mem_singleton.1 hlast]
  have hlabels := h.labels_concat hdefined
  have hunique := h.unique_concat hdefined
  cases hstatement : statementOf? text with
  | none =>
    have hsize : lineSize text = 0 := by rw [lineSize, hstatement]
    refine ⟨hspelled, ?_, ?_, ?_, h.placed_concat [] hdefined.placed ?_, hlabels, hunique⟩
    · dsimp only
      rw [hdefined.placed]
      exact h.wellFormed
    · rw [startOf_concat, hsize, Nat.add_zero, ← h.pos]
      exact hdefined.pos
    · rw [startOf_concat, hsize, Nat.add_zero, ← h.size]
      exact congrArg wordCount hdefined.placed
    · intro statement hsome
      cases hstatement.symm.trans hsome
  | some statement =>
    have hsize : lineSize text = statement.size := by rw [lineSize, hstatement]
    have hpos : draft₁.pos = UInt16.ofNat (startOf texts texts.length) := hdefined.pos.trans h.pos
    rw [hstatement] at hspells
    refine ⟨hspelled, ?_, ?_, ?_, h.placed_concat [⟨line, draft₁.pos, statement⟩] ?_ ?_, hlabels,
      hunique⟩
    · refine List.forall_mem_cons.2 ⟨wellFormed_of_spells hspells, ?_⟩
      rw [hdefined.placed]
      exact h.wellFormed
    · rw [startOf_concat, hsize, UInt16.ofNat_add, ← hpos]
      rfl
    · rw [startOf_concat, hsize, ← h.size, ← hdefined.placed, Nat.add_comm]
      rfl
    · rw [← hdefined.placed]
      rfl
    · intro other hsome
      cases hstatement.symm.trans hsome
      exact ⟨line, by rw [hpos]⟩

/-- The first pass over all lines. -/
theorem Drafted.draftFrom {more : List (List Char)} (h : Drafted texts draft)
    (hmore : Assembly.draftFrom draft line more = .ok draft') : Drafted (texts ++ more) draft' := by
  induction more generalizing texts draft line with
  | nil =>
    cases hmore
    rwa [List.append_nil]
  | cons text rest ih =>
    unfold Assembly.draftFrom at hmore
    split at hmore
    · rename_i draft₁ hline
      rw [List.append_cons]
      exact ih (h.addLine hline) hmore
    · cases hmore

end Parley.Assembly
