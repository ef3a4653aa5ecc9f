import Parley.Decompile.Naming
import Parley.Decompile.Parameters
import Parley.Listing.Graph
set_option autoImplicit false

/-!
# The state of decompilation

A `Decompilation` holds the graph of a conversation's code and what has been found out about its
functions.  The passes are computations on it that may fault; a pass that faults leaves behind what it
had done by then.
-/

namespace Parley

/-! ## Faults -/

/-- Why a conversation cannot be decompiled. -/
inductive DecompileFault where
  /-- A jump leads to a position at which no instruction starts. -/
  | unresolvedJumpTarget (pos target : UInt16)
  /-- A call names an imported function that the conversation does not import. -/
  | unknownIntrinsic (pos id : UInt16)
  /-- There is no function of this name. -/
  | unknownFunction (name : String)
  /-- An operation finds fewer expressions than it consumes. -/
  | operandCountMismatch (pos : UInt16) (needed found : Nat)
  /-- An operation finds an address for a value, or a value for an address. -/
  | operandKindMismatch (pos : UInt16) (detail : String)
  /-- What is said is no constant. -/
  | sayOperandNotImmediate (pos : UInt16)
  /-- What is said is no string of the string block. -/
  | stringOutOfRange (pos id : UInt16)
  /-- The code has no words. -/
  | emptyCode
  deriving DecidableEq

/-- The wording of a decompilation fault. -/
def DecompileFault.message : DecompileFault → String
  | .unresolvedJumpTarget pos target =>
    "jump at " ++ Text.hexWord pos ++ " targets " ++ Text.hexWord target ++
      ", which starts no instruction"
  | .unknownIntrinsic pos id =>
    "call at " ++ Text.hexWord pos ++ " references unknown intrinsic " ++ Text.hexWordMarked id
  | .unknownFunction name => "function '" ++ name ++ "' was never discovered"
  | .operandCountMismatch pos needed found =>
    "operator at " ++ Text.hexWord pos ++ " needs " ++ toString needed ++ " operands but only " ++
      toString found ++ " are available"
  | .operandKindMismatch pos detail => "operator at " ++ Text.hexWord pos ++ ": " ++ detail
  | .sayOperandNotImmediate pos =>
    "say at " ++ Text.hexWord pos ++ " does not use an immediate string id"
  | .stringOutOfRange pos id =>
    "string " ++ Text.decimal id ++ " used at " ++ Text.hexWord pos ++
      " is outside the string block"
  | .emptyCode => "conversation contains no code"

/-! ## Functions -/

/-- An array among the local variables of a function. -/
structure LocalArray where
  /-- The number of the local variable it starts at. -/
  start : UInt16
  /-- The highest index used. -/
  size : UInt16
  deriving DecidableEq

/-- What is known about the variables of a function. -/
structure Variables where
  params : List DataType
  locals : List DataType
  arrays : List LocalArray
  deriving DecidableEq

namespace Variables

/-- The variables of a function with `count` local variables of unknown type. -/
def ofCount (count : Nat) : Variables := ⟨[], List.replicate count .unknown, []⟩

/-- The list extended to `size` elements. -/
def padTo {α : Type} (filler : α) (size : Nat) (xs : List α) : List α :=
  xs ++ List.replicate (size - xs.length) filler

/-- Take note that the local array at `start` is used at `index`. -/
def noteArray (vars : Variables) (start index : UInt16) : Variables :=
  if vars.arrays.any (·.start = start) then
    let widen (array : LocalArray) : LocalArray :=
      if array.start = start then { array with size := max array.size index } else array
    { vars with arrays := vars.arrays.map widen }
  else { vars with arrays := vars.arrays ++ [⟨start, index⟩] }

/-- Take note that a local variable is a number. -/
def useLocal (vars : Variables) (index : UInt16) : Variables :=
  let locals := padTo .unknown (index.toNat + 1) vars.locals
  { vars with locals := locals.set index.toNat .int }

/-- Take note that there are `number` parameters at least. -/
def useParam (vars : Variables) (number : UInt16) : Variables :=
  { vars with params := padTo .int number.toNat vars.params }

/-- Forget the type of a local variable. -/
def forgetLocal (vars : Variables) (index : Nat) : Variables :=
  { vars with locals := vars.locals.set index .unknown }

end Variables

/-- A local function of the conversation. -/
structure FunctionInfo where
  name : String
  /-- The position of its first instruction. -/
  start : UInt16
  /-- The position of its prologue. -/
  entry : UInt16
  /-- The position of its epilogue. -/
  stop : UInt16
  /-- The item of its front boundary. -/
  startItem : ItemId
  /-- The item of its end boundary. -/
  endItem : ItemId
  returnType : DataType
  vars : Variables
  /-- The names of the functions that call it. -/
  callers : SortedSet String

/-! ## Decompilation -/

/-- How far a decompilation has come. -/
inductive Stage where
  /-- Nothing is done. -/
  | fresh
  /-- Labels and targets are known. -/
  | disassembled
  /-- Everything is done. -/
  | decompiled
  deriving DecidableEq

/-- A conversation under decompilation. -/
structure Decompilation where
  graph : Graph
  functions : Array FunctionInfo
  importedFunctions : ImportTable
  importedGlobals : ImportTable
  strings : Array String
  options : NamingOptions
  /-- The code ranges of loops, in which a jump back to the start continues the loop. -/
  loopRanges : List (UInt16 × UInt16)
  slot : Option UInt16
  stage : Stage

/-- A computation on a decompilation that may fault. -/
abbrev Pass : Type → Type := EStateM DecompileFault Decompilation

namespace Decompilation

/-- The decompilation of an image before anything is done. -/
def ofImage (image : Image) (strings : List String) (options : NamingOptions) : Decompilation where
  graph := .ofCode image.code
  functions := #[]
  importedFunctions := image.functions
  importedGlobals := image.globals
  strings := strings.toArray
  options
  loopRanges := []
  slot := image.slot
  stage := .fresh

/-- The decompilation with its graph changed. -/
def onGraph (d : Decompilation) (f : Graph → Graph) : Decompilation := { d with graph := f d.graph }

/-- The decompilation with one of its functions changed. -/
def onFunction (d : Decompilation) (func : Nat) (f : FunctionInfo → FunctionInfo) : Decompilation :=
  { d with functions := d.functions.modify func f }

/-- The decompilation with the variables of one of its functions changed. -/
def onVariables (d : Decompilation) (func : Nat) (f : Variables → Variables) : Decompilation :=
  d.onFunction func fun info => { info with vars := f info.vars }

/-- The first function with a name. -/
def function? (d : Decompilation) (name : String) : Option FunctionInfo :=
  d.functions.find? (·.name = name)

/-- The number of the first function with a name. -/
def functionIndex? (d : Decompilation) (name : String) : Option Nat :=
  d.functions.findIdx? (·.name = name)

/-- The number of the function whose first instruction or prologue stands at a position. -/
def functionAt? (d : Decompilation) (pos : UInt16) : Option Nat :=
  d.functions.findIdx? fun info => info.start = pos || info.entry = pos

/-- The boundary items of a function. -/
def bounds (d : Decompilation) (func : Nat) : ItemId × ItemId :=
  match d.functions[func]? with
  | some info => (info.startItem, info.endItem)
  | none => (0, 0)

/-- The items between the boundaries of a function. -/
def body (d : Decompilation) (func : Nat) : List ItemId :=
  let (start, stop) := d.bounds func
  d.graph.between start stop

/-- The expression that an item is. -/
def expression (d : Decompilation) (id : ItemId) : Expr :=
  (d.graph.item id).expression?.getD (.atom "" false)

/-- The name of the global at a slot. -/
def globalName (d : Decompilation) (slot : UInt16) : String :=
  match d.importedGlobals.get? slot with
  | some item => item.name
  | none => "global_" ++ Text.decimal slot

/-- A text with its line feeds written as two characters each. -/
def escapeLineFeeds (text : List Char) : List Char :=
  text.flatMap fun c => if c = '\n' then ['\\', 'n'] else [c]

/-- The literal of a string of the string block. -/
def stringLiteral? (d : Decompilation) (id : UInt16) : Option String :=
  (d.strings[id.toNat]?).map fun text =>
    "\"" ++ String.ofList (escapeLineFeeds text.toList) ++ "\""

/-- The texts of all statements, in order. -/
def statements (d : Decompilation) : List String :=
  d.graph.order.filterMap fun id => (d.graph.item id).statement?.map (·.text)

end Decompilation

namespace Pass

/-- Change the graph. -/
def onGraph (f : Graph → Graph) : Pass Unit := modify (·.onGraph f)

/-! ## New items -/

/-- Put an expression in the place of an item, whose label it takes over. -/
def addExpression (site : ItemId) (expression : Expr) : Pass ItemId := fun d =>
  let replaced := d.graph.item site
  let item : Item := ⟨replaced.pos, replaced.label, replaced.xrefCount, false, .expression expression⟩
  let id := d.graph.size
  .ok id <| d.onGraph fun g =>
    (g.modify site fun old => old.withoutLabel.markProcessed).insertBefore site item

/-- Put an operation in the place of an item. -/
def addOperation (site : ItemId) (operation : Operation) : Pass ItemId := fun d =>
  let item := Item.ofKind (d.graph.item site).pos (.operation operation)
  let id := d.graph.size
  .ok id (d.onGraph fun g => (g.markProcessed site).insertBefore site item)

end Pass

namespace Graph

/-- Put a statement before an item. -/
def addStatement (g : Graph) (site : ItemId) (statement : Statement) : Graph :=
  g.insertBefore site (.ofKind (g.item site).pos (.statement statement))

/-- Put a statement in the place of an item. -/
def replaceByStatement (g : Graph) (site : ItemId) (statement : Statement) : Graph :=
  (g.markProcessed site).addStatement site statement

end Graph

namespace Pass

/-- Put a statement in the place of an item. -/
def replaceByStatement (site : ItemId) (statement : Statement) : Pass ItemId := fun d =>
  let id := d.graph.size
  .ok id (d.onGraph (·.replaceByStatement site statement))

end Pass

end Parley
