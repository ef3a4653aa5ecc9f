import Parley.Decompile.Analysis
import Parley.Text.Blank
import Parley.Menu
set_option autoImplicit false

/-!
# From operations to statements

Every operation of a function takes the expressions nearest before it, as many as it needs, and becomes
an expression or a statement.  That takes the place of its earliest operand, unless a statement lies
between the operands and the operation; then it stands where the operation stood, so that no effect
moves before another.
-/

namespace Parley

/-! ## Operands -/

/-- The expressions that an operation consumes. -/
structure Operands where
  /-- The items, the one pushed last first. -/
  ids : List ItemId
  /-- Whether a statement lies between them and the operation. -/
  crossesStatement : Bool

namespace Operands

/-- The earliest operand. -/
def earliest? (operands : Operands) : Option ItemId := operands.ids.getLast?

/-- Where the result of an operation goes. -/
def site (operands : Operands) (operation : ItemId) : ItemId :=
  match operands.earliest? with
  | some earliest => if operands.crossesStatement then operation else earliest
  | none => operation

end Operands

/-- The first `needed` expressions of a list of items that nothing has consumed, and whether there is a
statement before the last of them. -/
def Graph.takeOperands (g : Graph) : Nat → List ItemId → Operands
  | 0, _ => ⟨[], false⟩
  | _ + 1, [] => ⟨[], false⟩
  | needed + 1, id :: rest =>
    let item := g.item id
    if item.isOpenExpression then
      let others := g.takeOperands needed rest
      ⟨id :: others.ids, others.crossesStatement⟩
    else
      let others := g.takeOperands (needed + 1) rest
      ⟨others.ids, others.crossesStatement || item.statement?.isSome⟩

namespace Pass

/-- The operands of an operation that needs `needed` of them, looked for back to the item `start`. -/
def collectOperands (start operation : ItemId) (needed : Nat) : Pass Operands := do
  let d ← get
  let operands := d.graph.takeOperands needed (d.graph.backBetween start operation)
  let found := operands.ids.length
  if found < needed then
    throw (.operandCountMismatch (d.graph.item operation).pos needed found)
  pure operands

/-- The expression that an item is. -/
def expression (id : ItemId) : Pass Expr := do
  let d ← get
  pure (d.expression id)

/-- The expression of the operand number `index`, and its item. -/
def operand (operands : Operands) (index : Nat) : Pass (ItemId × Expr) := do
  let id := operands.ids.getD index 0
  pure (id, ← expression id)

/-- Read a pushed number as the address of a global. -/
def useAsGlobal (id : ItemId) (slot : UInt16) : Pass Unit := modify fun d =>
  d.onGraph (·.modify id (·.withExpression (.atom (d.globalName slot) true)))

/-- The expression that an item is, as an address if it can be one: a number is the slot of a global. -/
def addressOf (id : ItemId) : Pass Expr := do
  match (← expression id).immediate? with
  | some slot => useAsGlobal id slot
  | none => pure ()
  expression id

/-- Refuse an expression at `pos` for a reason. -/
def refuse {α : Type} (pos : UInt16) (before text behind : String) : Pass α :=
  throw (.operandKindMismatch pos (before ++ "'" ++ text ++ "'" ++ behind))

/-- Refuse an address where a value is wanted. -/
def requireValue (pos : UInt16) (expression : Expr) : Pass Unit :=
  if expression.isAddress then refuse pos "" expression.text " is an address, expected a value"
  else pure ()

/-! ## Operators and memory -/

/-- Combine a binary operator.  A constant stands on the right of a test for equality. -/
def combineBinary (site : ItemId) (pos : UInt16) (opcode : Opcode) (operands : Operands) :
    Pass ItemId := do
  let (_, second) ← operand operands 0
  let (_, first) ← operand operands 1
  let swaps := opcode = .testEq ∧ first.immediate?.isSome
  let left := if swaps then second else first
  let right := if swaps then first else second
  requireValue pos left
  requireValue pos right
  addExpression site (.binary opcode left right)

/-- Combine a unary operator. -/
def combineUnary (site : ItemId) (pos : UInt16) (opcode : Opcode) (operands : Operands) :
    Pass ItemId := do
  let (_, value) ← operand operands 0
  requireValue pos value
  addExpression site (.unary opcode value)

/-- Combine a load. -/
def combineLoad (site : ItemId) (pos : UInt16) (operands : Operands) : Pass ItemId := do
  let (id, _) ← operand operands 0
  let address ← addressOf id
  if !address.isAddress then refuse pos "cannot read through value " address.text ""
  addExpression site address.contents

/-- Combine the address of an array element. -/
def combineElement (site : ItemId) (pos : UInt16) (operands : Operands) : Pass ItemId := do
  let (baseId, _) ← operand operands 0
  let base ← addressOf baseId
  let (_, index) ← operand operands 1
  if !base.isAddress then refuse pos "array base " base.text " is not an address"
  if index.isAddress then refuse pos "array index " index.text " is an address"
  addExpression site (.atom (elementText base.text index.text) true)

/-! ## Menu answers -/

/-- Whether a text occurs in another. -/
def mentions (text part : String) : Bool := (Text.splitOnce? part.toList text.toList).isSome

/-- The first call of an imported function behind an item, within its function. -/
def nextIntrinsicCall? (g : Graph) (id : ItemId) : Option (ItemId × Operation) :=
  let behind := (g.after id).takeWhile fun other => (g.item other).kind ≠ .functionEnd
  behind.findSome? fun other =>
    ((g.item other).operation?.filter (·.opcode = .calli)).map fun operation => (other, operation)

/-- Whether the call of a menu with flags may be passed the array that `target` is an element of.  It may
unless the instruction before it pushes the address of another one. -/
def passesArray (g : Graph) (call : ItemId) (target : String) : Bool :=
  match (g.prev? call).bind fun prev => (g.item prev).opcodeItem? with
  | none => false
  | some op =>
    op.opcode ≠ some .pushiEff || mentions target (localName (op.operand.getD 0) ++ "[")

/-- Whether an array element is stored that the next call of an imported function offers in a menu. -/
def isMenuAnswer (d : Decompilation) (store : ItemId) (target : String) : Bool :=
  mentions target "[" &&
    match nextIntrinsicCall? d.graph store with
    | none => false
    | some (call, operation) =>
      match (d.importedFunctions.get? operation.arg).bind fun item => MenuKind.ofName? item.name with
      | some .plain => true
      | some .flagged => passesArray d.graph call target
      | none => false

/-- The end of a store of the constant `value` to `target` that is a menu answer: the string that it is
the id of, with the id as a comment. -/
def menuAnswer? (d : Decompilation) (store : ItemId) (target : String) (value : UInt16) :
    Option String :=
  if isMenuAnswer d store target && value ≠ 0 then
    (d.stringLiteral? value).map fun literal => literal ++ "; // " ++ Text.decimal value
  else none

/-- The mark between the two sides of a store. -/
def storeMark : String := " = "

/-- Combine a store. -/
def combineStore (id site : ItemId) (pos : UInt16) (operation : Operation) (operands : Operands) :
    Pass ItemId := do
  let (last, _) ← operand operands 0
  let (first, _) ← operand operands 1
  let targetId := if operation.swapsStore then last else first
  let valueId := if operation.swapsStore then first else last
  let target ← addressOf targetId
  let value ← expression valueId
  let d ← get
  if !target.isAddress then refuse pos "cannot store into value " target.text ""
  if value.isAddress then refuse pos "cannot store address " value.text ""
  let stored := (value.immediate?.bind (menuAnswer? d id target.text)).getD (value.text ++ ";")
  replaceByStatement site (.plain (target.text ++ storeMark ++ stored))

/-! ## Calls, returns and speech -/

/-- Whether a text is a number: digits, perhaps with a minus sign before them. -/
def isNumeral (text : List Char) : Bool :=
  !text.isEmpty && ((Text.withoutFront? ['-'] text).getD text).all Text.isDecimalDigit

/-- The number of the local variable that a name begins with. -/
def localIndex? (name : List Char) : Option Nat :=
  Text.digits? 10 ((name.drop localMark.length).takeWhile Text.isDecimalDigit)

/-- What was stored into a variable by the nearest store of a list of items, with the item of that
store. -/
def nearestStore? (g : Graph) (name : String) (ids : List ItemId) : Option (ItemId × List Char) :=
  ids.findSome? fun id =>
    ((g.item id).statement?.bind fun statement =>
      Text.withoutFront? (name ++ storeMark).toList statement.text.toList).map fun rest => (id, rest)

/-- How a number is written as an argument of a known type: a string id as the string, with the id as a
comment. -/
def argumentText (d : Decompilation) (type : DataType) (value : List Char) : String :=
  let literal? := if type = .string then (Text.word? 10 value).bind fun id =>
      (d.stringLiteral? id).map fun literal =>
        literal ++ " /* " ++ Text.decimal id ++ " */"
    else none
  literal?.getD (String.ofList value)

/-- A line as a comment. -/
def commented (text : String) : String := "// " ++ text

/-- Replace the address of a local variable passed to a call by the number last stored there.  The store
becomes a comment. -/
def inlineLocal (func : Nat) (id : ItemId) (type : DataType) : Pass Unit := do
  let d ← get
  let name := (d.expression id).text
  match nearestStore? d.graph name (d.graph.backBetween (d.bounds func).1 id) with
  | none => pure ()
  | some (store, rest) =>
    let value := Text.dropEndWhile (· == ';') rest
    if isNumeral value then
      match localIndex? name.toList with
      | some index => modify (·.onVariables func (·.forgetLocal index))
      | none => pure ()
      onGraph (·.modify id (·.withExpression (.atom (argumentText d type value) false)))
      onGraph fun g => g.modify store fun item =>
        (item.withText (commented ((item.statement?.map (·.text)).getD ""))).markProcessed

/-- The text of an argument of a known type. -/
def argument (func : Nat) (id : ItemId) (type : DataType) : Pass String := do
  let value ← expression id
  if value.isAddress && beginsWith localMark value.text then inlineLocal func id type
  let address ← addressOf id
  pure address.text

/-- The texts of the arguments of a call, where `types` are the known types of those that are left. -/
def arguments (func : Nat) : List DataType → List ItemId → Pass (List String)
  | _, [] => pure []
  | types, id :: rest => do
    let text ← argument func id (types.headD .int)
    let others ← arguments func types.tail rest
    pure (text :: others)

/-- The name of a called function. -/
def calledName (pos : UInt16) (operation : Operation) : Pass String := do
  if operation.opcode = .calli then importedName pos operation.arg
  else
    let d ← get
    pure (d.options.functionName operation.arg)

/-- Combine a call. -/
def combineCall (func : Nat) (site : ItemId) (pos : UInt16) (operation : Operation)
    (operands : Operands) : Pass ItemId := do
  let name ← calledName pos operation
  let texts ← arguments func operation.paramTypes operands.ids
  let text := name ++ "(" ++ String.intercalate ", " texts ++ ")"
  if operation.yieldsExpression then addExpression site (.atom text false)
  else replaceByStatement site (.plain (text ++ ";"))

/-- Combine the return of a value. -/
def combineReturn (site : ItemId) (operands : Operands) : Pass ItemId := do
  let (_, value) ← operand operands 0
  replaceByStatement site (.plain ("return " ++ value.text ++ ";"))

/-- Combine the speech of a string. -/
def combineSay (site : ItemId) (pos : UInt16) (operands : Operands) : Pass ItemId := do
  let (_, value) ← operand operands 0
  match value.immediate? with
  | none => throw (.sayOperandNotImmediate pos)
  | some id =>
    let d ← get
    match d.stringLiteral? id with
    | none => throw (.stringOutOfRange pos id)
    | some literal => replaceByStatement site (.plain ("say(" ++ literal ++ ");"))

/-! ## The pass -/

/-- Combine an operation with its operands; the result is the new item. -/
def combineKind (func : Nat) (id site : ItemId) (pos : UInt16) (operation : Operation)
    (operands : Operands) : Pass ItemId :=
  match operation.opcode with
  | .call | .calli => combineCall func site pos operation operands
  | .saveReg => combineReturn site operands
  | .sayOp => combineSay site pos operands
  | .fetchm => combineLoad site pos operands
  | .offset => combineElement site pos operands
  | .sto => combineStore id site pos operation operands
  | .neg | .not => combineUnary site pos operation.opcode operands
  | opcode => combineBinary site pos opcode operands

/-- Move the label of the earliest operand to an expression made from it. -/
def moveLabel (earliest combined : ItemId) (g : Graph) : Graph :=
  let old := g.item earliest
  if old.label.isSome && (g.item combined).expression?.isSome then
    (g.modify earliest Item.withoutLabel).modify combined fun item =>
      { item with label := old.label, xrefCount := old.xrefCount }
  else g

/-- Combine the operation that an item of the function `func` is. -/
def combineOperation (func : Nat) (id : ItemId) (operation : Operation) : Pass Unit := do
  let d ← get
  let operands ← collectOperands (d.bounds func).1 id operation.needed
  let pos := (d.graph.item id).pos
  let combined ← combineKind func id (operands.site id) pos operation operands
  match operands.earliest? with
  | some earliest => onGraph (moveLabel earliest combined)
  | none => pure ()
  onGraph (·.modifyAll (id :: operands.ids) Item.markProcessed)

/-- Combine an item of the function `func`, if it is an operation that nothing has replaced. -/
def combineItem (func : Nat) (id : ItemId) : Pass Unit := do
  let d ← get
  let item := d.graph.item id
  match if item.processed then none else item.operation? with
  | some operation => combineOperation func id operation
  | none => pure ()

/-- Combine all operations of the function `func`. -/
def combine (func : Nat) : Pass Unit := do
  let d ← get
  (d.body func).forM (combineItem func)

end Pass

end Parley
