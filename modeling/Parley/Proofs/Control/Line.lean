import Parley.Decompile.Jump
import Parley.Proofs.Listing.Walk
set_option autoImplicit false

/-!
# Lines of the control structure

What the recovery of control structures works on are jumps and the expressions that branches test, and what it
writes are the lines of blocks inside of functions, continuations, jumps to labels and labels.  Some of these lines
stand for the test of a condition.
-/

namespace Parley

/-! ## Roles -/

namespace StatementRole

/-- Whether a line belongs to the control structure inside of a function. -/
def isControl : StatementRole → Bool
  | .plain | .opens .function | .closes .function => false
  | _ => true

/-- Whether a line tests a condition. -/
def tests : StatementRole → Bool
  | .opens .ifThen | .opens .whileLoop | .opens .case | .closes .doWhile | .gotoIf _ => true
  | _ => false

/-- The label that a line goes to. -/
def goesTo? : StatementRole → Option String
  | .goto name | .gotoIf name => some name
  | _ => none

/-- The label that a line is. -/
def labels? : StatementRole → Option String
  | .label name => some name
  | _ => none

theorem isControl_of_tests {role : StatementRole} (h : role.tests = true) : role.isControl = true := by
  unfold tests at h
  split at h
  all_goals first | rfl | cases h

theorem isControl_of_goesTo? {role : StatementRole} {name : String} (h : role.goesTo? = some name) :
    role.isControl = true := by
  unfold goesTo? at h
  split at h
  all_goals first | rfl | cases h

theorem eq_label_of_labels? {role : StatementRole} {name : String} (h : role.labels? = some name) :
    role = .label name := by
  unfold labels? at h
  split at h
  · rw [Option.some.inj h]
  · cases h

end StatementRole

/-- The line shows a test of the condition `e`: the opening line of a conditional, plain or inverted, of a loop or
of a case, the closing line of a loop with its condition behind, or a jump on the condition. -/
inductive Expr.TestedBy (e : Expr) : Statement → Prop where
  | conditional : TestedBy e ⟨openingLine "if" e.text, .opens .ifThen⟩
  | inverted : TestedBy e ⟨openingLine "if" (negate e.text e.precedence), .opens .ifThen⟩
  | whileLoop : TestedBy e ⟨openingLine "while" e.text, .opens .whileLoop⟩
  | doWhile : TestedBy e ⟨closeBrace ++ " while (" ++ e.text ++ ");", .closes .doWhile⟩
  | case {subject value : String} (h : splitComparison? e.text = some (subject, value)) :
      TestedBy e ⟨"case " ++ value ++ ":", .opens .case⟩
  | gotoIf (opcode : Opcode) (label : String) : TestedBy e ⟨Pass.gotoIfText opcode e.text label, .gotoIf label⟩

theorem Expr.TestedBy.tests {e : Expr} {line : Statement} (h : e.TestedBy line) : line.role.tests = true := by
  cases h <;> rfl

/-! ## Jumps and branches -/

namespace Opcode

/-- Whether the opcode is one of the branches that test a condition. -/
def isConditional : Opcode → Bool
  | .beq | .bne => true
  | _ => false

/-- Whether the opcode is one of the jumps and branches inside of a function. -/
def isJump : Opcode → Bool
  | .jmp | .bra | .beq | .bne => true
  | _ => false

theorem isJump_of_isConditional {opcode : Opcode} (h : opcode.isConditional = true) : opcode.isJump = true := by
  cases opcode <;> first | rfl | cases h

end Opcode

namespace Item

/-- Whether the item is a branch that tests a condition. -/
def isConditional (item : Item) : Bool := item.opcode?.any (·.isConditional)

/-- Whether the item is one of the jumps and branches inside of a function. -/
def isJump (item : Item) : Bool := item.opcode?.any (·.isJump)

/-- The line of the control structure that an item shows. -/
def controlLine? (item : Item) : Option Statement :=
  if item.processed then none else item.statement?.filter (·.role.isControl)

/-- Whether the item shows a line that tests a condition. -/
def tests (item : Item) : Bool := item.controlLine?.any (·.role.tests)

/-- The label that the line goes to which an item shows. -/
def goesTo? (item : Item) : Option String := item.controlLine?.bind (·.role.goesTo?)

/-- The label that an item shows. -/
def labels? (item : Item) : Option String := item.controlLine?.bind (·.role.labels?)

variable {item : Item}

theorem isJump_of_isConditional (h : item.isConditional = true) : item.isJump = true := by
  unfold isConditional at h
  unfold isJump
  cases hopcode : item.opcode? with
  | none => simp [hopcode] at h
  | some opcode =>
    rw [hopcode, Option.any_some] at h
    exact Opcode.isJump_of_isConditional h

theorem exists_opcode_of_isJump (h : item.isJump = true) :
    ∃ opcode, item.opcode? = some opcode ∧ opcode.isJump = true := by
  unfold isJump at h
  cases hopcode : item.opcode? with
  | none => simp [hopcode] at h
  | some opcode => exact ⟨opcode, rfl, by rwa [hopcode, Option.any_some] at h⟩

theorem isOpcodeItem_of_isJump (h : item.isJump = true) : item.isOpcodeItem = true := by
  obtain ⟨opcode, hopcode, -⟩ := exists_opcode_of_isJump h
  exact isOpcodeItem_of_opcode? hopcode

theorem isOpcodeItem_of_isConditional (h : item.isConditional = true) : item.isOpcodeItem = true :=
  isOpcodeItem_of_isJump (isJump_of_isConditional h)

theorem isOpcodeItem_of_targetPos? {target : UInt16} (h : item.targetPos? = some target) :
    item.isOpcodeItem = true := by
  obtain ⟨op, hop, -⟩ := Option.bind_eq_some_iff.1 h
  rw [isOpcodeItem, hop]
  rfl

/-! ### Lines -/

theorem controlLine?_of_statement? (h : item.statement? = none) : item.controlLine? = none := by
  rw [controlLine?, h]
  split <;> rfl

theorem controlLine?_of_processed (h : item.processed = true) : item.controlLine? = none := if_pos h

theorem controlLine?_statement (pos : UInt16) (line : Statement) :
    (ofKind pos (.statement line)).controlLine? = if line.role.isControl then some line else none := by
  cases h : line.role.isControl <;> simp [controlLine?, ofKind, statement?, Option.filter, h]

theorem controlLine?_eq_some {line : Statement} :
    item.controlLine? = some line ↔
      item.processed = false ∧ item.statement? = some line ∧ line.role.isControl = true := by
  unfold controlLine?
  cases item.processed <;> simp [Option.filter_eq_some_iff]

theorem lt_size_of_controlLine? {g : Graph} {id : ItemId} {line : Statement}
    (h : (g.item id).controlLine? = some line) : id < g.size := by
  refine Graph.lt_size_of_kind fun hkind => ?_
  obtain ⟨-, hstatement, -⟩ := controlLine?_eq_some.1 h
  simp [statement?, hkind] at hstatement

theorem exists_line_of_tests (h : item.tests = true) :
    ∃ line, item.controlLine? = some line ∧ line.role.tests = true := by
  unfold tests at h
  cases hline : item.controlLine? with
  | none => simp [hline] at h
  | some line => exact ⟨line, rfl, by rwa [hline, Option.any_some] at h⟩

theorem tests_of_controlLine? {line : Statement} (h : item.controlLine? = some line) :
    item.tests = line.role.tests := by rw [tests, h, Option.any_some]

/-- An expression is neither an instruction nor a line. -/
theorem of_expression? (h : item.expression?.isSome = true) : item.opcodeItem? = none ∧ item.statement? = none := by
  unfold expression? at h
  unfold opcodeItem? statement?
  cases hkind : item.kind <;> simp_all

theorem isConditional_of_opcodeItem? {a b : Item} (h : b.opcodeItem? = a.opcodeItem?) :
    b.isConditional = a.isConditional := by
  rw [isConditional, opcode?, h, isConditional, opcode?]

theorem isJump_of_opcodeItem? {a b : Item} (h : b.opcodeItem? = a.opcodeItem?) : b.isJump = a.isJump := by
  rw [isJump, opcode?, h, isJump, opcode?]

theorem targetPos?_of_opcodeItem? {a b : Item} (h : b.opcodeItem? = a.opcodeItem?) :
    b.targetPos? = a.targetPos? := by
  rw [targetPos?, h, targetPos?]

end Item

/-- An item stands between two others. -/
def Graph.Within (g : Graph) (start stop id : ItemId) : Prop :=
  Precedes g.order start id ∧ Precedes g.order id stop

instance (g : Graph) (start stop id : ItemId) : Decidable (g.Within start stop id) :=
  inferInstanceAs (Decidable (_ ∧ _))

/-- In a longer listing what was there has the same instructions and the same lines of the control structure. -/
structure Graph.Carries (g g' : Graph) : Prop where
  longer : g.Extends g'
  opcodeItem? : ∀ id < g.size, (g'.item id).opcodeItem? = (g.item id).opcodeItem?
  controlLine? : ∀ id < g.size, (g'.item id).controlLine? = (g.item id).controlLine?

namespace Graph.Carries

variable {g g' : Graph} {id : ItemId} (h : g.Carries g')

include h

theorem pos_eq (hid : id < g.size) : (g'.item id).pos = (g.item id).pos := congrArg Prod.fst (h.longer.code id hid)

/-- An instruction that nothing has replaced has been so before. -/
theorem isOpenOpcode_of {opcode : Opcode} (hopen : (g'.item id).isOpenOpcode opcode = true) :
    (g.item id).isOpenOpcode opcode = true := by
  have hopcode := Item.opcode?_of_isOpenOpcode hopen
  have hlt := h.longer.lt_of_isOpcodeItem (Item.isOpcodeItem_of_opcode? hopcode)
  rw [Item.opcode?, h.opcodeItem? id hlt, ← Item.opcode?] at hopcode
  rw [Item.isOpenOpcode, Bool.and_eq_true, Bool.not_eq_true'] at hopen ⊢
  refine ⟨Bool.eq_false_iff.2 fun hmarked => ?_, decide_eq_true hopcode⟩
  rw [h.longer.processed id hlt hmarked] at hopen
  cases hopen.1

end Graph.Carries

theorem Graph.Within.mono {g g' : Graph} {start stop id : ItemId} (h : g.Within start stop id)
    (hsub : g.order.Sublist g'.order) : g'.Within start stop id :=
  ⟨h.1.mono hsub, h.2.mono hsub⟩

end Parley
