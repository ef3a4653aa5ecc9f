import Parley.Listing.Expression
import Parley.Image.Basic
set_option autoImplicit false

/-!
# Items of a listing

A listing under work is a sequence of items in code order.  It starts as one item for each instruction.
Boundaries of functions, operations, expressions and statements are put in front of the instructions
they replace; what has been replaced is marked processed and stays.
-/

namespace Parley

/-- An instruction, or a word that is none. -/
structure OpcodeItem where
  /-- The instruction word. -/
  word : UInt16
  /-- The opcode, unless the word stands for none. -/
  opcode : Option Opcode
  operand : Option UInt16
  /-- The label of the place it leads to, or the name of the imported function it calls. -/
  targetLabel : Option String
  /-- The position it leads to. -/
  targetPos : Option UInt16
  deriving DecidableEq

/-- An operation that waits for the expressions it consumes. -/
structure Operation where
  opcode : Opcode
  /-- The position or the id of the called function. -/
  arg : UInt16
  /-- The number of expressions it consumes. -/
  needed : Nat
  /-- Whether it leaves an expression, and not a statement. -/
  yieldsExpression : Bool
  resultType : DataType
  /-- Whether value and address of a store stand in reverse order. -/
  swapsStore : Bool
  precedence : Nat
  /-- The types of the arguments of a called function, where they are known. -/
  paramTypes : List DataType
  deriving DecidableEq

/-- An operation without an argument of its own. -/
def Operation.simple (opcode : Opcode) (needed : Nat) (yieldsExpression : Bool)
    (resultType : DataType) : Operation :=
  ⟨opcode, 0, needed, yieldsExpression, resultType, false, opcode.precedence, []⟩

/-! ## Statements -/

/-- The kinds of blocks between an opening and a closing statement. -/
inductive BlockKind where
  | function
  | ifThen
  | whileLoop
  | doWhile
  | switch
  | case
  deriving DecidableEq

/-- What a statement does to the block structure and to the flow of control. -/
inductive StatementRole where
  /-- Nothing. -/
  | plain
  /-- It opens a block. -/
  | opens (block : BlockKind)
  /-- It closes the first half of a conditional and opens the second. -/
  | alternative
  /-- It closes a block. -/
  | closes (block : BlockKind)
  /-- It continues a loop. -/
  | continues
  /-- It goes to a label. -/
  | goto (label : String)
  /-- It goes to a label on a condition. -/
  | gotoIf (label : String)
  /-- It is a label. -/
  | label (name : String)
  deriving DecidableEq

/-- A line of output. -/
structure Statement where
  text : String
  role : StatementRole
  deriving DecidableEq

namespace StatementRole

/-- The change of indentation before the line.  The statement that closes a case stands inside it. -/
def indentBefore : StatementRole → Int
  | closes .case => 0
  | closes _ | alternative | label _ => -1
  | _ => 0

/-- The change of indentation behind the line. -/
def indentAfter : StatementRole → Int
  | opens _ | alternative | label _ => 1
  | closes .case => -1
  | _ => 0

end StatementRole

/-- A statement outside of all structure. -/
def Statement.plain (text : String) : Statement := ⟨text, .plain⟩

/-! ## Items -/

/-- What an item stands for. -/
inductive ItemKind where
  | opcode (op : OpcodeItem)
  | functionStart
  | functionEnd
  | operation (operation : Operation)
  | statement (statement : Statement)
  | expression (expression : Expr)
  deriving DecidableEq

/-- One item of a listing. -/
structure Item where
  /-- The code position it stands for. -/
  pos : UInt16
  label : Option String
  /-- The number of jumps, branches and calls that lead here. -/
  xrefCount : Nat
  /-- Whether other items have taken its place. -/
  processed : Bool
  kind : ItemKind
  deriving DecidableEq

namespace Item

/-- An item without a label. -/
def ofKind (pos : UInt16) (kind : ItemKind) : Item := ⟨pos, none, 0, false, kind⟩

instance : Inhabited Item := ⟨ofKind 0 .functionEnd⟩

/-- The instruction that the item is, if it is one. -/
def opcodeItem? (item : Item) : Option OpcodeItem :=
  match item.kind with
  | .opcode op => some op
  | _ => none

/-- The opcode of an item that is an instruction. -/
def opcode? (item : Item) : Option Opcode := item.opcodeItem?.bind (·.opcode)

/-- Whether the item is an instruction, or a word that is none. -/
def isOpcodeItem (item : Item) : Bool := item.opcodeItem?.isSome

/-- Whether the item is an instruction with this opcode. -/
def isOpcode (item : Item) (opcode : Opcode) : Bool := item.opcode? = some opcode

/-- Whether the item is an instruction with this opcode that nothing has replaced. -/
def isOpenOpcode (item : Item) (opcode : Opcode) : Bool := !item.processed && item.isOpcode opcode

/-- The expression that the item is, if it is one. -/
def expression? (item : Item) : Option Expr :=
  match item.kind with
  | .expression expression => some expression
  | _ => none

/-- The statement that the item is, if it is one. -/
def statement? (item : Item) : Option Statement :=
  match item.kind with
  | .statement statement => some statement
  | _ => none

/-- The operation that the item is, if it is one. -/
def operation? (item : Item) : Option Operation :=
  match item.kind with
  | .operation operation => some operation
  | _ => none

/-- Whether the item is an expression that nothing has consumed. -/
def isOpenExpression (item : Item) : Bool := !item.processed && item.expression?.isSome

/-- The position that an instruction leads to. -/
def targetPos? (item : Item) : Option UInt16 := item.opcodeItem?.bind (·.targetPos)

/-- The operand of an instruction, zero if it has none. -/
def operandOrZero (item : Item) : UInt16 := (item.opcodeItem?.bind (·.operand)).getD 0

/-- The item marked as replaced. -/
def markProcessed (item : Item) : Item := { item with processed := true }

/-- The item without its label and references. -/
def withoutLabel (item : Item) : Item := { item with label := none, xrefCount := 0 }

/-- The instruction with what it leads to. -/
def withTarget (item : Item) (label : Option String) (pos : Option UInt16) : Item :=
  match item.kind with
  | .opcode op => { item with kind := .opcode { op with targetLabel := label, targetPos := pos } }
  | _ => item

/-- The instruction with another label of what it leads to. -/
def withTargetLabel (item : Item) (label : Option String) : Item :=
  item.withTarget label item.targetPos?

/-- The statement or expression with another text. -/
def withText (item : Item) (text : String) : Item :=
  match item.kind with
  | .statement statement => { item with kind := .statement { statement with text } }
  | .expression expression => { item with kind := .expression (expression.withText text) }
  | _ => item

/-- The item with an expression in it. -/
def withExpression (item : Item) (expression : Expr) : Item :=
  { item with kind := .expression expression }

end Item

end Parley
