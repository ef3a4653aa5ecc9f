import Parley.Decompile.Function
set_option autoImplicit false

/-!
# From instructions to operations

Each instruction of a function is replaced by an expression, if it pushes something, by an operation,
if it consumes expressions, or by a statement.  A load behind a push, the removal of arguments behind a
call and the swap before a store are taken together with the instruction that they belong to.
-/

namespace Parley.Pass

/-- The instructions that push the address of an element of a local array. -/
def elementPattern : List Opcode := [.pushi, .pushiEff, .offset]

/-- The instructions that return a value. -/
def returnPattern : List Opcode := [.saveReg, .pop]

/-- What the names of local variables begin with. -/
def localMark : String := "local_"

/-- The name of a local variable. -/
def localName (index : UInt16) : String := localMark ++ Text.decimal index

/-- The source form of an array element. -/
def elementText (base index : String) : String := base ++ "[" ++ index ++ "]"

/-! ## Pushes -/

/-- Take a load behind an item together with it; the result says whether there is one. -/
def consumeLoad (id : ItemId) : Pass Bool := do
  let d ← get
  match (d.graph.next? id).filter fun next => (d.graph.item next).isOpenOpcode .fetchm with
  | none => pure false
  | some next =>
    onGraph (·.markProcessed next)
    pure true

/-- Replace the push of an element of a local array. -/
def addElement (func : Nat) (site : ItemId) : Pass Unit := do
  let d ← get
  let index := (d.graph.item site).operandOrZero
  let start := match d.graph.next? site with
    | some next => (d.graph.item next).operandOrZero
    | none => 0
  modify (·.onVariables func (·.noteArray start index))
  let _ ← addExpression site (.atom (elementText (localName start) (Text.decimal index)) true)
  onGraph (·.markOpcodes site elementPattern.length)

/-- The number of the parameter at a negative distance from the base pointer. -/
def paramNumber (offset : UInt16) : UInt16 := 0 - offset - 1

/-- Whether a distance from the base pointer is negative, so that it leads to a parameter. -/
def isParamOffset (offset : UInt16) : Bool := offset > 0x7fff

/-- Replace the push of the address of a local variable or parameter.  A parameter holds an address, so a
load behind it still leaves one. -/
def addVariable (func : Nat) (site : ItemId) : Pass Unit := do
  let d ← get
  let offset := (d.graph.item site).operandOrZero
  let loaded ← consumeLoad site
  if isParamOffset offset then
    let number := paramNumber offset
    modify (·.onVariables func (·.useParam number))
    let _ ← addExpression site (.atom ("param" ++ Text.decimal number) true)
  else
    modify (·.onVariables func (·.useLocal offset))
    let _ ← addExpression site (.atom (localName offset) (!loaded))

/-- Replace the push of a number, which is the slot of a global if a load is behind it. -/
def addImmediate (site : ItemId) : Pass Unit := do
  let d ← get
  let value := (d.graph.item site).operandOrZero
  let loaded ← consumeLoad site
  let expression := if loaded then .atom (d.globalName value) false else .const value
  let _ ← addExpression site expression

/-- Whether an item pushes the number of arguments of a call of an imported function. -/
def isArgCount (g : Graph) (id : ItemId) : Bool :=
  match g.next? id with
  | some next => (g.item next).isOpcode .calli
  | none => false

/-! ## Stores -/

/-- Replace a store, with the swap before it. -/
def addStore (site : ItemId) : Pass Unit := do
  let d ← get
  let operation := Operation.simple .sto 2 false .void
  match (d.graph.prev? site).filter fun prev => (d.graph.item prev).isOpenOpcode .swap with
  | some swap =>
    onGraph (·.markProcessed swap)
    let _ ← addOperation site { operation with swapsStore := true }
  | none =>
    let _ ← addOperation site operation

/-! ## Calls -/

/-- What is behind a call: the number of values it removes, and whether the result is pushed. -/
structure Cleanup where
  pops : Nat
  pushesResult : Bool

/-- Take what is behind a call together with it. -/
def consumeCleanup (call stop : ItemId) : Pass Cleanup := do
  let d ← get
  let behind := d.graph.between call stop
  let pops := behind.takeWhile fun id => (d.graph.item id).isOpenOpcode .pop
  let pushed := ((behind.drop pops.length).head?).filter fun id =>
    (d.graph.item id).isOpenOpcode .pushReg
  onGraph (·.modifyAll (pops ++ pushed.toList) Item.markProcessed)
  pure ⟨pops.length, pushed.isSome⟩

/-- The type of what a call leaves. -/
def Cleanup.resultType (cleanup : Cleanup) : DataType :=
  if cleanup.pushesResult then .int else .void

/-- The argument types of an imported function called with `count` arguments, none if that is not its
number of parameters. -/
def argumentTypes (name : String) (count : Nat) : List DataType :=
  match parameters? name with
  | some params => if params.length = count then params.map (·.type) else []
  | none => []

/-- Replace the call of an imported function, with the number of arguments before it.  One of the values
removed behind the call is that number. -/
def addIntrinsicCall (call stop : ItemId) : Pass Unit := do
  let d ← get
  let item := d.graph.item call
  let id := item.operandOrZero
  let name ← importedName item.pos id
  onGraph (·.markProcessed call)
  let count? := (d.graph.prev? call).filter fun prev => (d.graph.item prev).isOpenOpcode .pushi
  let cleanup ← consumeCleanup call stop
  let needed := cleanup.pops - 1
  let _ ← addOperation (count?.getD call) {
    opcode := .calli
    arg := id
    needed
    yieldsExpression := cleanup.pushesResult
    resultType := cleanup.resultType
    swapsStore := false
    precedence := atomPrecedence
    paramTypes := argumentTypes name needed }

/-- The number of the function that a call in `func` enters, if that is another one.  A call that leads
nowhere enters none. -/
def enteredFunction (func : Nat) (target : UInt16) (label : Option String) : Pass (Option Nat) := do
  let d ← get
  let isOwn := match d.functions[func]? with
    | some info => target = info.start || target = info.entry
    | none => false
  let isInvalid := target = nowhere || label.any (beginsWith "invalid_")
  if isOwn || isInvalid then pure none
  else
    match d.functionAt? target with
    | some callee => pure (some callee)
    | none => throw (.unknownFunction (label.getD (d.options.functionName target)))

/-- Take note that `func` calls `callee`. -/
def noteCaller (func callee : Nat) : Pass Unit := modify fun d =>
  match d.functions[func]? with
  | some info =>
    d.onFunction callee fun called => { called with callers := called.callers.insert info.name () }
  | none => d

/-- Replace the call of a local function; the result is the other function that it enters. -/
def addLocalCall (func : Nat) (call stop : ItemId) : Pass (Option Nat) := do
  let d ← get
  let item := d.graph.item call
  let target := item.operandOrZero
  let label := item.opcodeItem?.bind (·.targetLabel)
  let cleanup ← consumeCleanup call stop
  let operation :=
    Operation.simple .call cleanup.pops cleanup.pushesResult cleanup.resultType
  let _ ← addOperation call { operation with arg := target }
  let callee? ← enteredFunction func target label
  match callee? with
  | some callee => noteCaller func callee
  | none => pure ()
  pure callee?

/-! ## The pass -/

/-- Replace one instruction of the function `func` that stands by itself; the result is the function that
it calls. -/
def analyzeOpcode (func : Nat) (stop id : ItemId) (opcode : Opcode) : Pass (Option Nat) := do
  match opcode with
  | .sayOp =>
    let _ ← addOperation id (.simple opcode 1 false .void)
    pure none
  | .exitOp =>
    let _ ← replaceByStatement id (.plain "exit;")
    pure none
  | .calli =>
    addIntrinsicCall id stop
    pure none
  | .call => addLocalCall func id stop
  | .add | .mul | .sub | .div | .mod | .or | .and | .testGt | .testGe | .testLt | .testLe
  | .testEq | .testNe | .offset =>
    let _ ← addOperation id (.simple opcode 2 true .int)
    pure none
  | .neg | .not | .fetchm =>
    let _ ← addOperation id (.simple opcode 1 true .int)
    pure none
  | .sto =>
    addStore id
    pure none
  | .pushiEff =>
    addVariable func id
    pure none
  | .pushi =>
    let d ← get
    if !isArgCount d.graph id then addImmediate id
    pure none
  | _ => pure none

/-- Replace the return of a value in the function `func`. -/
def addReturn (func : Nat) (site : ItemId) : Pass Unit := do
  let _ ← addOperation site (.simple .saveReg 1 false .void)
  onGraph (·.markOpcodes site returnPattern.length)
  modify (·.onFunction func fun info => { info with returnType := .int })

/-- Replace one item of the function `func`, if it is an instruction that nothing has replaced. -/
def analyzeItem (func : Nat) (stop id : ItemId) : Pass (Option Nat) := do
  let d ← get
  let item := d.graph.item id
  match if item.processed then none else item.opcode? with
  | none => pure none
  | some opcode =>
    if d.graph.matchesPattern id stop elementPattern then
      addElement func id
      pure none
    else if d.graph.matchesPattern id stop returnPattern then
      addReturn func id
      pure none
    else analyzeOpcode func stop id opcode

/-- Replace the next item of the function `func`, where `callees` are the functions called before it. -/
def analyzeNext (func : Nat) (stop : ItemId) (callees : List Nat) (id : ItemId) : Pass (List Nat) := do
  let callee? ← analyzeItem func stop id
  pure (callees ++ callee?.toList)

/-- Replace the instructions of the function `func`; the result are the functions it calls, in
order. -/
def analyze (func : Nat) : Pass (List Nat) := do
  let d ← get
  (d.body func).foldlM (analyzeNext func (d.bounds func).2) []

end Parley.Pass
