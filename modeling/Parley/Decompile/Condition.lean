import Parley.Decompile.Combination
set_option autoImplicit false

/-!
# Conditions

A condition is an expression that a branch tests.  The branch is the first instruction behind it that
nothing has replaced, and it leads forward when the condition is false.
-/

namespace Parley

/-! ## Texts of conditions -/

/-- The two sides of a text at its first test for equality. -/
def splitComparison? (text : String) : Option (String × String) :=
  (Text.splitOnce? " == ".toList text.toList).map fun (left, right) =>
    (String.ofList left, String.ofList right)

/-- Whether a text closes the parentheses that are open, `depth` of them, with its last character and
not before. -/
def closesAtEnd : Nat → List Char → Bool
  | depth, [] => depth = 0
  | depth, '(' :: rest => closesAtEnd (depth + 1) rest
  | depth, ')' :: rest => if depth = 1 then rest.isEmpty else closesAtEnd (depth - 1) rest
  | depth, _ :: rest => closesAtEnd depth rest

/-- Whether a text is one group in parentheses. -/
def isWrapped (text : List Char) : Bool :=
  text.head? = some '(' && text.getLast? = some ')' && closesAtEnd 0 text

/-- The negation of a condition by its text and precedence.  A negation in front is taken away, if it
governs the whole text. -/
def negateText (text : List Char) (precedence : Nat) : List Char :=
  let negated := ['!', '('] ++ text ++ [')']
  match text with
  | '!' :: inner =>
    if isWrapped inner then inner.tail.dropLast
    else if precedence ≥ unaryPrecedence then inner
    else negated
  | _ => negated

/-- The text of the negation of a condition. -/
def negate (text : String) (precedence : Nat) : String :=
  String.ofList (negateText text.toList precedence)

/-! ## Branches -/

/-- A forward branch. -/
structure Branch where
  /-- The branch instruction. -/
  item : ItemId
  pos : UInt16
  /-- Where it leads. -/
  target : UInt16

namespace Graph

/-- The expressions among items that nothing has consumed. -/
def openExpressions (g : Graph) (ids : List ItemId) : List ItemId :=
  ids.filter fun id => (g.item id).isOpenExpression

/-- The text of the expression that an item is. -/
def conditionText (g : Graph) (id : ItemId) : String :=
  match (g.item id).expression? with
  | some expression => expression.text
  | none => ""

/-- How tightly the expression binds that an item is. -/
def conditionPrecedence (g : Graph) (id : ItemId) : Nat :=
  match (g.item id).expression? with
  | some expression => expression.precedence
  | none => atomPrecedence

/-- The forward branch that tests a condition, in a function that ends at `stop`. -/
def forwardBranch? (g : Graph) (condition stop : ItemId) : Option Branch := do
  guard (g.item condition).isOpenExpression
  let id ← g.nextOpenOpcode? condition stop
  let item := g.item id
  guard (item.isOpcode .beq)
  let target ← item.targetPos?
  guard (target > item.pos)
  pure ⟨id, item.pos, target⟩

/-- Where a jump leads that nothing has replaced, if the item is one with this opcode. -/
def openTarget? (g : Graph) (id : ItemId) (opcode : Opcode) : Option UInt16 :=
  let item := g.item id
  if item.isOpenOpcode opcode then item.targetPos? else none

/-- A neighbour that is an instruction with this opcode that nothing has replaced. -/
def onlyOpen (g : Graph) (opcode : Opcode) (neighbour : Option ItemId) : Option ItemId :=
  neighbour.filter fun id => (g.item id).isOpenOpcode opcode

/-- A neighbour that is a jump to `target` that nothing has replaced. -/
def onlyJumpTo (g : Graph) (target : UInt16) (neighbour : Option ItemId) : Option ItemId :=
  neighbour.filter fun id => g.openTarget? id .jmp = some target

/-- Mark the item of an option as replaced, if there is one. -/
def markOptional (g : Graph) (id : Option ItemId) : Graph := g.modifyAll id.toList Item.markProcessed

end Graph

/-! ## Lines of the block structure -/

/-- The brace that opens a block. -/
def openBrace : String := "\x7b"

/-- The brace that closes a block. -/
def closeBrace : String := "\x7d"

/-- The line that opens a block governed by a word and a text in parentheses. -/
def openingLine (word text : String) : String := word ++ " (" ++ text ++ ") " ++ openBrace

/-- The line that closes a block, with a comment that says which. -/
def closingLine (comment : String) : String := closeBrace ++ " // " ++ comment

end Parley
