import Parley.Proofs.Machine.Evaluation
import Parley.Proofs.Source.Decompile
import Parley.Proofs.Source.Regrouping
set_option autoImplicit false

/-!
# Reading decompiled expressions back

The text of a tree says how the tree was grouped, except that an operand on the right loses its
parentheses when it binds exactly as tightly as its operator.  What is read is then grouped to the left,
which is the same only for operators that reassociate.
-/

namespace Parley.Source

/-! ## The text of a tree -/

namespace Written

/-- An operand in parentheses, if it binds looser than what it stands under. -/
def grouped (outer own : Nat) (w : Written) : Written := if own < outer then group w else w

theorem text_grouped (outer own : Nat) (w : Written) :
    (grouped outer own w).text = Tree.enclose outer own w.text := by
  unfold grouped Tree.enclose
  split <;> rfl

theorem plain_grouped (outer own : Nat) (w : Written) : (grouped outer own w).plain = w.plain := by
  unfold grouped
  split <;> rfl

theorem fits_grouped {w : Written} (h : w.Fits) (outer own : Nat) : (grouped outer own w).Fits := by
  unfold grouped
  split <;> exact h

theorem binds_grouped {w : Written} {outer own : Nat} (houter : outer ≤ atomPrecedence)
    (h : own ≤ w.binds) : outer ≤ (grouped outer own w).binds := by
  unfold grouped
  split
  · exact houter
  · rename_i hle
    exact Nat.le_trans (Nat.le_of_not_lt hle) h

end Written

namespace Tree

/-- A tree as it is written. -/
def written (names : Names) : Tree → Written
  | const value => .number value
  | localVar index => .name ("local_" ++ Text.decimal index)
  | param offset => .name ("param" ++ Text.decimal (0 - offset - 1))
  | global slot => .name (names.global slot)
  | unary opcode operand =>
    .unary opcode (.grouped unaryPrecedence operand.precedence (operand.written names))
  | binary opcode left right =>
    let first := .grouped opcode.1.precedence left.precedence (left.written names)
    let second := .grouped opcode.1.precedence right.precedence (right.written names)
    if swapsSides opcode left then .binary opcode second first else .binary opcode first second

theorem text_written (names : Names) (tree : Tree) :
    (tree.written names).text = tree.render names := by
  induction tree with
  | unary opcode operand ih => rw [written, Written.text, Written.text_grouped, ih, render]
  | binary opcode left right ihLeft ihRight =>
    rw [written, render]
    split <;> simp only [Written.text, Written.text_grouped, ihLeft, ihRight]
  | _ => rfl

theorem precedence_le_binds (names : Names) (tree : Tree) :
    tree.precedence ≤ (tree.written names).binds := by
  cases tree with
  | unary opcode operand => exact Nat.min_le_right _ _
  | binary opcode left right =>
    rw [written]
    split <;> exact Nat.min_le_right _ _
  | _ => exact Nat.le_refl _

theorem fits_written {names : Names} (hnames : names.WellNamed) (tree : Tree) :
    (tree.written names).Fits := by
  have hatom (opcode : BinaryOpcode) : opcode.1.precedence ≤ atomPrecedence :=
    Nat.le_of_lt (Nat.lt_trans (Written.precedence_binary opcode) (by decide))
  induction tree with
  | const value => trivial
  | localVar index => exact isIdentifier_decimal (by decide) _
  | param offset => exact isIdentifier_decimal (by decide) _
  | global slot => exact Names.isIdentifier_global hnames slot
  | unary opcode operand ih =>
    exact ⟨Written.binds_grouped (by decide) (precedence_le_binds names operand),
      Written.fits_grouped ih _ _⟩
  | binary opcode left right ihLeft ihRight =>
    have hleft := Written.binds_grouped (hatom opcode) (precedence_le_binds names left)
    have hright := Written.binds_grouped (hatom opcode) (precedence_le_binds names right)
    rw [written]
    split
    · exact ⟨⟨hright, hleft⟩, Written.fits_grouped ihRight _ _, Written.fits_grouped ihLeft _ _⟩
    · exact ⟨⟨hleft, hright⟩, Written.fits_grouped ihLeft _ _, Written.fits_grouped ihRight _ _⟩

/-- The text of a tree is read with the operands on the right grouped to the left. -/
theorem readText_render {names : Names} (hnames : names.WellNamed) (tree : Tree) :
    readText (tree.render names).toList = some ((tree.written names).readBehind none) := by
  rw [← text_written]
  exact readText_text (fits_written hnames tree)

/-! ## What a tree means -/

/-- Every name in a tree stands for the word that the tree reads there. -/
def Named (names : Names) (words : String → UInt16) (bp : UInt16) (memory : UInt16 → UInt16) :
    Tree → Prop
  | const _ => True
  | localVar index => words ("local_" ++ Text.decimal index) = memory (bp + index)
  | param offset =>
    words ("param" ++ Text.decimal (0 - offset - 1)) = memory (memory (bp + offset))
  | global slot => words (names.global slot) = memory slot
  | unary _ operand => operand.Named names words bp memory
  | binary _ left right => left.Named names words bp memory ∧ right.Named names words bp memory

theorem evalBinary_testEq_comm (x y : UInt16) :
    Machine.evalBinary .testEq x y = Machine.evalBinary .testEq y x := by
  simp [Machine.evalBinary, eq_comm]

/-- By its parentheses the text of a tree means the value of the tree. -/
theorem value?_plain {names : Names} {words : String → UInt16} {bp : UInt16}
    {memory : UInt16 → UInt16} {tree : Tree} (h : tree.Named names words bp memory) :
    (tree.written names).plain.value? words = tree.value? bp memory := by
  induction tree with
  | const value => rfl
  | localVar index => exact congrArg some h
  | param offset => exact congrArg some h
  | global slot => exact congrArg some h
  | unary opcode operand ih =>
    rw [written, Written.plain, Written.plain_grouped, Reading.value?, ih h, value?]
  | binary opcode left right ihLeft ihRight =>
    rw [written]
    split
    · rename_i hswaps
      have hopcode : opcode.1 = .testEq := by
        simp only [swapsSides, Bool.and_eq_true, decide_eq_true_eq] at hswaps
        exact hswaps.1
      simp only [Written.plain, Written.plain_grouped, Reading.value?, ihLeft h.1, ihRight h.2, value?,
        hopcode]
      cases left.value? bp memory <;> cases right.value? bp memory <;>
        simp [evalBinary_testEq_comm]
    · simp only [Written.plain, Written.plain_grouped, Reading.value?, ihLeft h.1, ihRight h.2, value?]

end Tree

/-! ## Ties that do not reassociate -/

theorem one_le_lastLocal : (1 : UInt16) ≤ 0x7fff := by decide

theorem isBinary_add : Opcode.opcodeClass .add = .binary := rfl

theorem isBinary_sub : Opcode.opcodeClass .sub = .binary := rfl

/-- Two operators on three local variables, the second one on the right. -/
def tied (outer inner : BinaryOpcode) : Tree :=
  .binary outer (.localVar ⟨0, by decide⟩)
    (.binary inner (.localVar ⟨1, one_le_lastLocal⟩) (.localVar ⟨2, by decide⟩))

/-- What is read of equally tight operators is the first of them under the second. -/
theorem readText_tied {names : Names} (hnames : names.WellNamed) {outer inner : BinaryOpcode}
    (htie : outer.1.precedence = inner.1.precedence) :
    readText ((tied outer inner).render names).toList = some (.binary inner
      (.binary outer (.name "local_0") (.name "local_1")) (.name "local_2")) := by
  have hatom : inner.1.precedence ≤ atomPrecedence :=
    Nat.le_of_lt (Nat.lt_trans (Written.precedence_binary inner) (by decide))
  have hwritten : (tied outer inner).written names = .binary outer (.name "local_0")
      (.binary inner (.name "local_1") (.name "local_2")) := by
    simp only [tied, Tree.written, Tree.swapsSides, Tree.isConst, Bool.and_false, Bool.false_eq_true,
      if_false, Written.grouped, Tree.precedence, htie, Nat.min_self, Nat.min_eq_right hatom,
      Nat.not_lt_of_le hatom, Nat.lt_irrefl]
    rfl
  rw [Tree.readText_render hnames, hwritten]
  simp [Written.readBehind, Written.ties, Written.close, htie]

/-- For every two equally tight operators that do not reassociate there is a tree whose text means
something else. -/
theorem exists_misread {names : Names} (hnames : names.WellNamed) {outer inner : BinaryOpcode}
    (htie : outer.1.precedence = inner.1.precedence) (h : joinable outer inner = false) :
    ∃ memory value reading, (tied outer inner).value? 0 memory = some value ∧
      readText ((tied outer inner).render names).toList = some reading ∧
      ∀ words, (tied outer inner).Named names words 0 memory → reading.value? words ≠ some value := by
  obtain ⟨x, y, z, value, hvalue, hne⟩ := exists_misgrouped htie h
  refine ⟨fun address => if address = 0 then x else if address = 1 then y else z, value, _, ?_,
    readText_tied hnames htie, fun words hnamed => ?_⟩
  · exact hvalue
  · obtain ⟨hx, hy, hz⟩ := hnamed
    change words "local_0" = x at hx
    change words "local_1" = y at hy
    change words "local_2" = z at hz
    simpa [Reading.value?, hx, hy, hz] using hne

/-! ## What the machine computes -/

/-- A conversation in front of the code of a tree: the variables of the tree lie below the stack pointer,
where `memory` says what they hold, and above it there is room for its values. -/
structure Ready {σ : Type} (tree : Tree) (memory : UInt16 → UInt16) (c : Conversation σ) : Prop where
  going : c.machine.finished = false
  room : c.machine.stack.Room tree.height
  holds : Machine.Holds memory c.machine.stack.depth c.machine.stack
  reads : ∀ address ∈ tree.reads c.machine.bp memory, address.toNat < c.machine.stack.depth

/-- The machine gets behind the code of a returned tree of `length` words, with a value in the result
register and the old stack. -/
def Returns {σ : Type} (host : Host σ) (c : Conversation σ) (length : Nat) (value : UInt16) : Prop :=
  ∃ stack : OperandStack, c.machine.stack.Like stack ∧ Machine.Reaches host c
    { c with machine := { c.machine with
      ip := c.machine.ip + UInt16.ofNat (length + 1), result := value, stack } }

/-- The code of a body stands behind a prologue of five words. -/
theorem codeAt_body {code : CodeWords} {locals : UInt16} {body : List Stmt}
    (hcode : code = (encode (functionCode locals body)).toArray)
    (hsize : (encode (functionCode locals body)).length ≤ 65535) : CodeAt code 5 (bodyCode body) := by
  have hwords : encode (functionCode locals body) =
      encode (prologueCode locals) ++ (encode (bodyCode body) ++ encode epilogueCode) := by
    rw [functionCode, encode_append, encode_append]
  refine ⟨encode (prologueCode locals), encode epilogueCode, ?_, rfl, ?_⟩
  · rw [hcode, hwords]
  · have hprologue : (encode (prologueCode locals)).length = 5 := rfl
    rw [hwords, List.length_append, List.length_append, hprologue] at hsize
    change _ ≤ 65536
    omega

/-- The code of a tree in a function computes its value. -/
theorem returns_value {σ : Type} {host : Host σ} (hhost : Machine.Host.Transparent host)
    {c : Conversation σ} {tree : Tree} {memory : UInt16 → UInt16} (hready : Ready tree memory c)
    (hip : c.machine.ip = 5) (hcode : CodeAt c.machine.image.code 5 (bodyCode [.return tree]))
    {value : UInt16} (hvalue : tree.value? c.machine.bp memory = some value) :
    Returns host c (encode tree.code).length value := by
  have hstart : c.moved 5 c.machine.stack = c := by
    unfold Conversation.moved
    rw [← show c.machine.ip = UInt16.ofNat 5 from hip]
  obtain ⟨stack, hlike, hreaches⟩ := Machine.reaches_result (c := c) hhost hready.going tree
    (CodeAt.append hcode).1 hready.room hready.holds hready.reads hvalue
  refine ⟨stack, hlike, ?_⟩
  rw [hstart, Nat.add_assoc, UInt16.ofNat_add] at hreaches
  rw [hip]
  exact hreaches

/-- A returned tree is decompiled to a text that is read with the operands on the right grouped to the
left.  The machine computes the value of the tree.  So the text means what the machine computes if and only
if grouping to the left leaves the value as it is, and it always does if the operators that tie
reassociate. -/
theorem decompile_return {image : Image} {strings : List String} {locals : UInt16} {tree : Tree}
    (options : NamingOptions)
    (hcode : image.code = (encode (functionCode locals [.return tree])).toArray)
    (hsize : (encode (functionCode locals [.return tree])).length ≤ 65535)
    (hnames : (Names.ofImage image strings).WellNamed) :
    ∃ d info count reading, Pass.decompile (.ofImage image strings options) = .ok () d ∧
      d.functions = #[info] ∧
      d.graph.liveStatements = signedLines info count
        [.plain ("return " ++ tree.render (Names.ofImage image strings) ++ ";")] ∧
      readText (tree.render (Names.ofImage image strings)).toList = some reading ∧
      ∀ {σ : Type} {host : Host σ} {c : Conversation σ} {memory : UInt16 → UInt16}
        {words : String → UInt16} {value : UInt16}, Machine.Host.Transparent host →
        c.machine.image = image → c.machine.ip = 5 → Ready tree memory c →
        tree.value? c.machine.bp memory = some value →
        tree.Named (Names.ofImage image strings) words c.machine.bp memory →
        Returns host c (encode tree.code).length value ∧
        (reading.value? words = some value ↔
          ((tree.written (Names.ofImage image strings)).readBehind none).value? words =
            (tree.written (Names.ofImage image strings)).plain.value? words) ∧
        ((tree.written (Names.ofImage image strings)).regular = true →
          reading.value? words = some value) := by
  obtain ⟨d, info, count, hrun, hfunctions, hlines⟩ :=
    decompilesTo_functionCode options hcode hsize hnames (by simp [Stmt.Speakable])
  refine ⟨d, info, count, _, hrun, hfunctions, hlines, Tree.readText_render hnames tree, ?_⟩
  intro σ host c memory words value hhost himage hip hready hvalue hnamed
  have hplain := (Tree.value?_plain hnamed).trans hvalue
  refine ⟨returns_value hhost hready hip ?_ hvalue, by rw [hplain], fun hregular => ?_⟩
  · rw [himage]
    exact codeAt_body hcode hsize
  · rw [Written.value?_readBehind words hregular fun entry hentry => by cases hentry]
    exact hplain

/-- A sum with a difference on its right. -/
def balance : Tree :=
  .binary ⟨.add, isBinary_add⟩ (.global 0)
    (.binary ⟨.sub, isBinary_sub⟩ (.localVar ⟨1, one_le_lastLocal⟩) (.const 3))

/-- A function that returns it. -/
def balanceImage : Image where
  slot := none
  stringBlock := 0
  reservedGlobals := 1
  functions := .empty
  globals := ⟨[(0, ⟨"gold", .int⟩)], by simp⟩
  code := (encode (functionCode 1 [.return balance])).toArray

/-- A machine behind the prologue of the function. -/
def balanceStart : Conversation Unit :=
  ⟨{ Machine.ofImage balanceImage [] with
    stack := ⟨#[70, 9, 0xffff, 12, 0, 0, 0], 3⟩, ip := 5, bp := 2, finished := false }, ()⟩

/-- The words of its memory, zero behind the last slot. -/
def balanceMemory (address : UInt16) : UInt16 :=
  balanceStart.machine.stack.slots[address.toNat]?.getD 0

theorem ready_balance : Ready balance balanceMemory balanceStart where
  going := rfl
  room := ⟨by decide, by decide⟩
  holds := by
    refine ⟨Nat.le_refl _, fun address haddress => ?_⟩
    have hslot : address.toNat < balanceStart.machine.stack.slots.size :=
      Nat.lt_of_lt_of_le haddress (by decide)
    rw [OperandStack.get, balanceMemory, Array.getElem?_eq_getElem hslot]
    rfl
  reads := Machine.reads_below_of_all (by decide)

theorem decompile_return_balance : ∃ d info count reading,
    Pass.decompile (.ofImage balanceImage [] ⟨false, .empty⟩) = .ok () d ∧ d.functions = #[info] ∧
      d.graph.liveStatements = signedLines info count [.plain "return gold + local_1 - 3;"] ∧
      readText "gold + local_1 - 3".toList = some reading ∧
      Returns Host.silent balanceStart 10 79 ∧
      reading.value? (fun name => if name = "gold" then 70 else 12) = some 79 := by
  have hcode : balanceImage.code = (encode (functionCode 1 [.return balance])).toArray := rfl
  have hnames : (Names.ofImage balanceImage []).WellNamed := by decide
  obtain ⟨d, info, count, reading, hrun, hfunctions, hlines, hread, hmeans⟩ :=
    decompile_return ⟨false, .empty⟩ hcode (by decide) hnames
  have hvalue : balance.value? balanceStart.machine.bp balanceMemory = some 79 := by decide
  have hnamed : balance.Named (Names.ofImage balanceImage [])
      (fun name => if name = "gold" then 70 else 12) balanceStart.machine.bp balanceMemory :=
    ⟨rfl, rfl, trivial⟩
  have hhost : Machine.Host.Transparent Host.silent := fun _ _ => rfl
  obtain ⟨hreturns, -, hregular⟩ := hmeans hhost rfl rfl ready_balance hvalue hnamed
  exact ⟨d, info, count, reading, hrun, hfunctions, hlines, hread, hreturns, hregular (by decide)⟩

/-- A difference with a difference on its right. -/
def difference : Tree :=
  .binary ⟨.sub, isBinary_sub⟩ (.const 1) (.binary ⟨.sub, isBinary_sub⟩ (.const 2) (.const 3))

/-- A function that returns it. -/
def differenceImage : Image := .ofCode (encode (functionCode 0 [.return difference])).toArray

/-- A machine with a small stack, before it is started. -/
def differenceMachine : Machine := { Machine.ofImage differenceImage [] with stack := .ofSize 8 }

/-- The machine computes two, and the text means minus four. -/
theorem misread_difference :
    (∃ d info count, Pass.decompile (.ofImage differenceImage [] ⟨false, .empty⟩) = .ok () d ∧
      d.functions = #[info] ∧
      d.graph.liveStatements = signedLines info count [.plain "return 1 - 2 - 3;"]) ∧
    (∃ reading, readText "1 - 2 - 3".toList = some reading ∧
      reading.value? (fun _ => 0) = some 0xfffc) ∧
    ∃ begin c, Machine.init Host.silent [] ⟨differenceMachine, ()⟩ = .ok () begin ∧
      Machine.run Host.silent 10 begin = .ok (.stepLimit 10) c ∧ c.machine.result = 2 := by
  have hcode : differenceImage.code = (encode (functionCode 0 [.return difference])).toArray := rfl
  have hnames : (Names.ofImage differenceImage []).WellNamed := by decide
  have hread := Tree.readText_render hnames difference
  refine ⟨?_, ⟨_, hread, by decide⟩, ⟨_, _, rfl, rfl, rfl⟩⟩
  exact decompilesTo_functionCode ⟨false, .empty⟩ hcode (by decide) hnames (by decide)

end Parley.Source
