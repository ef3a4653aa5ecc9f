import Parley.Decompile.CrossReference
set_option autoImplicit false

/-!
# Discovery of functions

A function begins with a prologue of four instructions, perhaps with a start instruction before it, and
ends with an epilogue of three.  Both are replaced by boundary items, to which the label and the
references of the function move.
-/

namespace Parley

/-- The instructions at the beginning of a function. -/
def prologue : List Opcode := [.pushBp, .spToBp, .pushi, .addSp]

/-- The instructions at the end of a function. -/
def epilogue : List Opcode := [.bpToSp, .popBp, .ret]

namespace Decompilation

/-! ## Boundaries -/

/-- The number of local variables that a prologue reserves. -/
def reservedLocals (g : Graph) (entry : ItemId) : Nat :=
  match (g.startingAt entry).find? fun id => (g.item id).isOpcode .pushi with
  | some id => (g.item id).operandOrZero.toNat
  | none => 0

/-- The name of a function by the position and the label of its prologue. -/
def nameFunction (options : NamingOptions) (entry : UInt16) (label : Option String) : String :=
  if entry ≤ 1 then startFunction
  else
    match label with
    | some label => if beginsWith "label_" label then options.functionName entry else label
    | none => unusedName entry

/-- The start instruction directly before a prologue. -/
def startInstruction? (g : Graph) (entry : ItemId) : Option ItemId :=
  (g.prev? entry).filter fun id => (g.item id).isOpcode .start

/-- Put a boundary before an instruction and mark the `count` instructions there as replaced. -/
def addBoundary (g : Graph) (site : ItemId) (count : Nat) (boundary : Item) : Graph :=
  (g.insertBefore site boundary).markOpcodes site count

/-- The boundary before a function whose first instruction is `site`. -/
def startBoundary (g : Graph) (site : ItemId) (name : String) (xrefCount : Nat) : Item :=
  ⟨(g.item site).pos, some name, xrefCount, false, .functionStart⟩

/-- The boundary before an epilogue, with its label. -/
def endBoundary (g : Graph) (exit : ItemId) : Item :=
  let item := g.item exit
  ⟨item.pos, item.label, item.xrefCount, false, .functionEnd⟩

/-- Add the function between a prologue and an epilogue. -/
def addFunction (d : Decompilation) (entry exit : ItemId) : Decompilation :=
  let entryItem := d.graph.item entry
  let name := nameFunction d.options entryItem.pos entryItem.label
  let locals := reservedLocals d.graph entry
  let start? := startInstruction? d.graph entry
  let site := start?.getD entry
  let startCount := match start? with
    | some start => (d.graph.item start).xrefCount
    | none => 0
  let xrefCount := if entryItem.pos ≤ 1 then 1 else entryItem.xrefCount + startCount
  let opcodes := prologue.length + if start?.isSome then 1 else 0
  let cleared := (d.graph.modify entry Item.withoutLabel).modify site Item.withoutLabel
  let startItem := cleared.size
  let opened := addBoundary cleared site opcodes (startBoundary cleared site name xrefCount)
  let boundary := endBoundary opened exit
  let endItem := opened.size
  let closed := addBoundary (opened.modify exit Item.withoutLabel) exit epilogue.length boundary
  let info : FunctionInfo := {
    name
    start := (d.graph.item site).pos
    entry := entryItem.pos
    stop := (d.graph.item exit).pos
    startItem
    endItem
    returnType := .void
    vars := .ofCount locals
    callers := .empty }
  { d with graph := closed, functions := d.functions.push info }

/-- The next prologue from an item on, with the epilogue that follows it. -/
def nextFunction? (g : Graph) (cursor : Option ItemId) : Option (ItemId × ItemId) :=
  (g.findPattern? cursor none prologue).bind fun entry =>
    (g.findPattern? (g.next? entry) none epilogue).map fun exit => (entry, exit)

/-- Add the functions from an item on, at most `fuel` of them. -/
def discoverFrom : Nat → Option ItemId → Decompilation → Decompilation
  | 0, _, d => d
  | fuel + 1, cursor, d =>
    match nextFunction? d.graph cursor with
    | none => d
    | some (entry, exit) => discoverFrom fuel (d.graph.next? exit) (d.addFunction entry exit)

/-- Add all functions of the code.  There are no more of them than instructions. -/
def discoverFunctions (d : Decompilation) : Decompilation :=
  discoverFrom d.graph.size d.graph.first? d

/-! ## Names at calls -/

/-- What a call that leads nowhere is labelled. -/
def invalidLabel : String := "invalid_ffff"

/-- The label of a call to `target`: the name of the function there, or whatever label is there. -/
def callLabel (d : Decompilation) (target : UInt16) : Option String :=
  if target = nowhere then some invalidLabel
  else
    match (d.functionAt? target).bind (d.functions[·]?) with
    | some info => some info.name
    | none => (d.graph.findPos? target).bind fun id => (d.graph.item id).label

/-- Label a call with what it enters. -/
def relabelCall (d : Decompilation) (id : ItemId) : Decompilation :=
  let item := d.graph.item id
  match item.opcodeItem?.bind (·.operand) with
  | some target =>
    if item.isOpcode .call then d.onGraph (·.modify id (·.withTargetLabel (d.callLabel target))) else d
  | none => d

/-- Label all calls with what they enter. -/
def relabelCalls (d : Decompilation) : Decompilation := d.graph.order.foldl relabelCall d

/-- Drop the references to a function, unless it was reached or is known to be unused. -/
def dropUnreached (reached : List UInt16) (d : Decompilation) (info : FunctionInfo) :
    Decompilation :=
  if reached.contains info.start || isUnusedName info.name then d
  else d.onGraph (·.modify info.startItem fun item => { item with xrefCount := 0 })

/-- Drop the references to all functions that were not reached. -/
def dropAllUnreached (d : Decompilation) (reached : List UInt16) : Decompilation :=
  d.functions.toList.foldl (dropUnreached reached) d

end Decompilation

end Parley
