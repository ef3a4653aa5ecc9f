import Parley.Decompile.State
set_option autoImplicit false

/-!
# Listings as text

Two listings: the decompiled functions as source, and all instructions with labels and references.  The
first leaves out functions that nothing refers to, and can show the replaced instructions as comments
between the statements.
-/

namespace Parley

/-- How a listing is laid out. -/
structure RenderOptions where
  /-- The number of spaces for each level of indentation. -/
  indentWidth : Nat
  /-- Who the conversation is with. -/
  name : Option String
  /-- Whether replaced instructions are shown as comments. -/
  showsInstructions : Bool

/-- The usual layout. -/
def RenderOptions.standard : RenderOptions := ⟨3, none, false⟩

namespace Item

/-- What an instruction leads to or works on, behind its mnemonic. -/
def operandText (op : OpcodeItem) (opcode : Opcode) : String :=
  match opcode, op.targetLabel, op.operand with
  | .jmp, some label, some operand | .beq, some label, some operand
  | .bne, some label, some operand | .bra, some label, some operand
  | .call, some label, some operand =>
    " " ++ label ++ " // target: " ++ Text.hexWord (op.targetPos.getD operand)
  | .calli, some name, _ => " " ++ name
  | _, _, some operand => " " ++ Text.hexWordMarked operand
  | _, _, none => ""

/-- The line for an instruction, without indentation. -/
def opcodeLine? (item : Item) : Option String :=
  item.opcodeItem?.map fun op =>
    match op.opcode with
    | none => Text.hexWord item.pos ++ " ??? (" ++ Text.hexWordMarked op.word ++ ")"
    | some opcode => Text.hexWord item.pos ++ " " ++ opcode.mnemonic ++ operandText op opcode

/-- How often a label is referred to. -/
def referenceText (count : Nat) : String := " // referenced " ++ toString count ++ " times"

/-- The line for the label of an item, if something refers to it. -/
def labelLine? (item : Item) : Option String :=
  if item.xrefCount > 0 then item.label.map fun label => label ++ ":" ++ referenceText item.xrefCount
  else none

end Item

/-- `count` levels of indentation; none if the count is negative. -/
def indentation (width : Nat) (count : Int) : String :=
  String.ofList (List.replicate (count.toNat * width) ' ')

/-- The lines at the head of a listing. -/
def listingHead (slot : Option UInt16) (options : RenderOptions) : List String :=
  let number := match slot with
    | some slot => " " ++ Text.decimal slot
    | none => ""
  let name := match options.name with
    | some name => " for " ++ name
    | none => ""
  ["; conversation" ++ number ++ name, ""]

/-- Lines as a text in which every line is ended. -/
def unlines (lines : List String) : String := String.join (lines.map (· ++ "\n"))

/-! ## The decompiled listing -/

/-- Whether an item is the boundary before a function that is left out. -/
def Item.startsUnused (item : Item) : Bool :=
  item.kind = .functionStart && !item.processed &&
    (item.xrefCount = 0 || item.label.any isUnusedName)

/-- The lines for an item at a level of indentation. -/
def Item.sourceLines (options : RenderOptions) (indent : Int) (item : Item) : List String :=
  let pad := indentation options.indentWidth indent
  let opcodeLine := item.opcodeLine?.toList
  if item.processed then
    if options.showsInstructions then opcodeLine.map fun line => pad ++ "// " ++ line else []
  else
    match item.kind with
    | .statement statement =>
      if statement.text.isEmpty then [""]
      else
        let level := indent + statement.role.indentBefore
        [indentation options.indentWidth level ++ statement.text]
    | .opcode _ => item.labelLine?.toList ++ opcodeLine.map (pad ++ ·)
    | .expression expression =>
      item.labelLine?.toList ++ [pad ++ "// expression: " ++ expression.text]
    | _ => []

/-- The change of indentation by an item. -/
def Item.indentChange (item : Item) : Int :=
  match if item.processed then none else item.statement? with
  | some statement => statement.role.indentBefore + statement.role.indentAfter
  | none => 0

/-- How far the decompiled listing has been written. -/
structure ListingState where
  indent : Int
  /-- Whether a function is being left out. -/
  skips : Bool
  /-- The lines so far, the latest first. -/
  lines : List String

/-- Write one item of the decompiled listing. -/
def ListingState.write (options : RenderOptions) (state : ListingState) (item : Item) :
    ListingState :=
  if state.skips then { state with skips := item.kind ≠ .functionEnd }
  else if item.startsUnused then { state with skips := true }
  else {
    indent := state.indent + item.indentChange
    skips := false
    lines := (item.sourceLines options state.indent).reverse ++ state.lines }

namespace Decompilation

/-- The items in order. -/
def itemList (d : Decompilation) : List Item := d.graph.order.map d.graph.item

/-- The decompiled functions as source. -/
def renderSource (d : Decompilation) (options : RenderOptions) : String :=
  let written := d.itemList.foldl (ListingState.write options) ⟨0, false, []⟩
  unlines (listingHead d.slot options ++ written.lines.reverse)

/-! ## The disassembly -/

/-- The line with the names of the functions that call the one with a boundary item. -/
def callerLines (d : Decompilation) (boundary : ItemId) : List String :=
  match d.functions.find? (·.startItem = boundary) with
  | some info =>
    if info.callers.entries.isEmpty then []
    else ["; caller xrefs: " ++ String.intercalate ", " info.callers.keys]
  | none => []

/-- The lines of the disassembly for an item. -/
def instructionLines (d : Decompilation) (options : RenderOptions) (id : ItemId) : List String :=
  let item := d.graph.item id
  match item.kind with
  | .opcode _ =>
    item.labelLine?.toList ++
      item.opcodeLine?.toList.map (indentation options.indentWidth 1 ++ ·)
  | .functionStart =>
    ["", "; function " ++ item.label.getD "" ++ Item.referenceText item.xrefCount] ++
      d.callerLines id
  | .functionEnd => ["; end of function"]
  | _ => []

/-- Every instruction with labels and references. -/
def renderInstructions (d : Decompilation) (options : RenderOptions) : String :=
  unlines (listingHead d.slot options ++ d.graph.order.flatMap (d.instructionLines options))

end Decompilation

end Parley
