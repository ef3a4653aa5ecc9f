import Parley.Listing.Item
import Std.Data.TreeMap
set_option autoImplicit false

/-!
# The graph of a listing

A graph is a sequence of items.  An item keeps its id for good, whatever is put before or behind it:
`items` holds the items by id, `order` their ids in the order of the listing.  Items are added, changed
and never removed.  `firstAt` finds the item that a code position leads to, the foremost one of those
that stand for it.
-/

namespace Parley

/-- The name of an item within its graph: how many items were made before it. -/
abbrev ItemId := Nat

/-- The items of a listing. -/
structure Graph where
  /-- The items by their ids. -/
  items : Array Item
  /-- The ids in the order of the listing. -/
  order : List ItemId
  /-- The item to which a jump to a position leads. -/
  firstAt : Std.TreeMap UInt16 ItemId

namespace Graph

/-- The graph without items. -/
def empty : Graph := ⟨#[], [], ∅⟩

instance : Inhabited Graph := ⟨empty⟩

/-- The number of items. -/
def size (g : Graph) : Nat := g.items.size

/-- The item with an id. -/
def item (g : Graph) (id : ItemId) : Item := g.items.getD id default

/-! ## Order -/

/-- The foremost item. -/
def first? (g : Graph) : Option ItemId := g.order.head?

/-- The last item. -/
def last? (g : Graph) : Option ItemId := g.order.getLast?

/-- An item and those behind it. -/
def startingAt (g : Graph) (id : ItemId) : List ItemId := g.order.dropWhile (· ≠ id)

/-- The items behind an item. -/
def after (g : Graph) (id : ItemId) : List ItemId := (g.startingAt id).tail

/-- The part of a list in front of `id`, nearest first, followed by `passed`. -/
def passTo (id : ItemId) (passed : List ItemId) : List ItemId → List ItemId
  | [] => passed
  | x :: rest => if x = id then passed else passTo id (x :: passed) rest

/-- The items before an item, nearest first. -/
def before (g : Graph) (id : ItemId) : List ItemId := passTo id [] g.order

theorem passTo_eq (id : ItemId) (passed order : List ItemId) :
    passTo id passed order = (order.takeWhile (· ≠ id)).reverse ++ passed := by
  induction order generalizing passed with
  | nil => rfl
  | cons x rest ih => by_cases h : x = id <;> simp [passTo, h, ih]

theorem before_eq (g : Graph) (id : ItemId) :
    g.before id = (g.order.takeWhile (· ≠ id)).reverse := by
  simp [before, passTo_eq]

/-- The next item. -/
def next? (g : Graph) (id : ItemId) : Option ItemId := (g.after id).head?

/-- The previous item. -/
def prev? (g : Graph) (id : ItemId) : Option ItemId := (g.before id).head?

/-- The items strictly between two items. -/
def between (g : Graph) (start stop : ItemId) : List ItemId :=
  (g.after start).takeWhile (· ≠ stop)

/-- The items strictly between two items, nearest to the latter first. -/
def backBetween (g : Graph) (start stop : ItemId) : List ItemId :=
  (g.before stop).takeWhile (· ≠ start)

/-- The foremost item standing for a code position. -/
def findPos? (g : Graph) (pos : UInt16) : Option ItemId := g.firstAt[pos]?

/-! ## Change -/

/-- Change an item. -/
def modify (g : Graph) (id : ItemId) (f : Item → Item) : Graph :=
  { g with items := g.items.modify id f }

/-- Change items. -/
def modifyAll (g : Graph) (ids : List ItemId) (f : Item → Item) : Graph :=
  ids.foldl (fun g id => g.modify id f) g

/-- Mark an item as replaced. -/
def markProcessed (g : Graph) (id : ItemId) : Graph := g.modify id Item.markProcessed

/-- Add an item at the end. -/
def append (g : Graph) (item : Item) : Graph :=
  let id := g.size
  { items := g.items.push item
    order := g.order ++ [id]
    firstAt := g.firstAt.insertIfNew item.pos id }

/-- `order` with `id` directly before `before`. -/
def placeBefore (id before : ItemId) : List ItemId → List ItemId
  | [] => []
  | x :: rest => if x = before then id :: x :: rest else x :: placeBefore id before rest

/-- Add an item directly before another.  It takes over the code position from the other one, or where
nothing stands for the position yet. -/
def insertBefore (g : Graph) (before : ItemId) (item : Item) : Graph :=
  let id := g.size
  let takesOver := g.firstAt[item.pos]?.all (· = before)
  { items := g.items.push item
    order := placeBefore id before g.order
    firstAt := if takesOver then g.firstAt.insert item.pos id else g.firstAt }

/-! ## Search -/

/-- Whether the items of a list are instructions with the opcodes of a pattern, all before `stop`. -/
def spells (g : Graph) (stop : ItemId) : List Opcode → List ItemId → Bool
  | [], _ => true
  | _ :: _, [] => false
  | opcode :: pattern, id :: rest =>
    id ≠ stop && (g.item id).isOpcode opcode && g.spells stop pattern rest

/-- Whether the items from `start` on are instructions with the opcodes of a pattern, all before
`stop`.  The first opcode is looked at before the items are gone through. -/
def matchesPattern (g : Graph) (start stop : ItemId) (pattern : List Opcode) : Bool :=
  pattern.head?.all (g.item start).isOpcode && g.spells stop pattern (g.startingAt start)

/-- The instructions among items, with their opcodes. -/
def opcodesOf (g : Graph) (ids : List ItemId) : List (ItemId × Option Opcode) :=
  ids.filterMap fun id => (g.item id).opcodeItem?.map fun op => (id, op.opcode)

/-- The search for a pattern in one pass, where `matched` opcodes of it have been met, the first of them
at `found`.  An opcode that breaks a match starts a new one if it is the first of the pattern. -/
def scanPattern (pattern : List Opcode) (matched : Nat) (found : Option ItemId) :
    List (ItemId × Option Opcode) → Option ItemId
  | [] => none
  | (id, opcode) :: rest =>
    if opcode.isSome && opcode == pattern[matched]? then
      let found := if matched = 0 then some id else found
      if matched + 1 = pattern.length then found
      else scanPattern pattern (matched + 1) found rest
    else if opcode.isSome && opcode == pattern.head? then scanPattern pattern 1 (some id) rest
    else scanPattern pattern 0 none rest

/-- The items from `start` on up to `stop`, where nothing starts without a start and nothing ends without
a stop. -/
def range (g : Graph) (start stop : Option ItemId) : List ItemId :=
  match start with
  | none => []
  | some start => (g.startingAt start).takeWhile fun id => some id ≠ stop

/-- The first instruction from which on the instructions between `start` and `stop` have the opcodes of a
pattern, with other items left out. -/
def findPattern? (g : Graph) (start stop : Option ItemId) (pattern : List Opcode) : Option ItemId :=
  scanPattern pattern 0 none (g.opcodesOf (g.range start stop))

/-- Mark the next `count` instructions from `start` on as replaced. -/
def markOpcodes (g : Graph) (start : ItemId) (count : Nat) : Graph :=
  let ids := (g.startingAt start).filter fun id => (g.item id).isOpcodeItem
  g.modifyAll (ids.take count) Item.markProcessed

/-- The first instruction behind `start` and before `stop` that nothing has replaced. -/
def nextOpenOpcode? (g : Graph) (start stop : ItemId) : Option ItemId :=
  (g.between start stop).find? fun id => !(g.item id).processed && (g.item id).isOpcodeItem

/-- The nearest instruction before an item. -/
def prevOpcode? (g : Graph) (id : ItemId) : Option ItemId :=
  (g.before id).find? fun other => (g.item other).isOpcodeItem

/-! ## The graph of a code segment -/

/-- The number of words that instructions can stand at. -/
def codeLimit : Nat := 65536

/-- The opcode and operand at `pos`: no opcode for a word that stands for none, and no operand where the
code ends before it. -/
def decodeItem (code : CodeWords) (pos : UInt16) : Option Opcode × Option UInt16 :=
  match Instruction.decode code pos with
  | .ok instruction => (some instruction.opcode, instruction.operand)
  | .error (.missingOperand _ opcode) => (some opcode, none)
  | .error _ => (none, none)

/-- The items of the code from word `index` on, at most `fuel` of them. -/
def itemsFrom (code : CodeWords) : Nat → Nat → List Item
  | 0, _ => []
  | fuel + 1, index =>
    if h : index < code.size ∧ index < codeLimit then
      let pos := UInt16.ofNat index
      let (opcode, operand) := decodeItem code pos
      let op : OpcodeItem := ⟨code[index], opcode, operand, none, none⟩
      let stride := if operand.isSome then 2 else 1
      .ofKind pos (.opcode op) :: itemsFrom code fuel (index + stride)
    else []

/-- The items of a code segment, one for each instruction.  Each takes a word at least. -/
def codeItems (code : CodeWords) : List Item := itemsFrom code (min code.size codeLimit) 0

/-- The graph of items that stand for different positions. -/
def ofItems (items : List Item) : Graph where
  items := items.toArray
  order := List.range items.length
  firstAt := items.zipIdx.foldl (fun firstAt (item, id) => firstAt.insertIfNew item.pos id) ∅

/-- The graph of a code segment. -/
def ofCode (code : CodeWords) : Graph := ofItems (codeItems code)

end Graph

end Parley
