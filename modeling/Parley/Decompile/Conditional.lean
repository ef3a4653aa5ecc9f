import Parley.Decompile.Condition
set_option autoImplicit false

/-!
# Conditionals

In the plain form the branch leads to the second half, and the first half ends with a branch behind it;
without such a branch there is no second half.  In the inverted form the branch skips a single jump
straight to the code that is run when the condition is false, so the condition is negated.
-/

namespace Parley.Graph

/-- A conditional as it will be written. -/
structure Conditional where
  /-- The graph with the jumps marked that the conditional explains. -/
  graph : Graph
  /-- The text of the condition. -/
  text : String
  /-- Where the second half starts. -/
  alternative : Option ItemId
  /-- Where the conditional ends. -/
  endAt : ItemId

/-- The plain form with a second half, where `bra` ends the first. -/
def conditionalWithElse? (g : Graph) (condition : ItemId) (branch : Branch) (bra : ItemId) :
    Option Conditional := do
  let endPos ← g.openTarget? bra .bra
  guard (endPos ≥ branch.target)
  let endAt ← g.findPos? endPos
  let g := g.markProcessed bra
  let g := g.markOptional (g.onlyJumpTo endPos (g.prev? bra))
  let g := g.markOptional (g.onlyJumpTo endPos (g.prevOpcode? endAt))
  pure ⟨g, g.conditionText condition, g.next? bra, endAt⟩

/-- The jump at the end of the first half over the second, and where it leads, in the inverted form that
would otherwise end at `endAt`. -/
def jumpPastElse? (g : Graph) (branch : Branch) (endAt : ItemId) : Option (ItemId × ItemId) := do
  let last ← g.prevOpcode? endAt
  let pos := (g.item last).pos
  let pastElse ← g.openTarget? last .jmp
  guard (pos > branch.pos)
  guard (pastElse > pos)
  let newEnd ← g.findPos? pastElse
  pure (last, newEnd)

/-- The inverted form, where `jump` is the jump that the branch to `target` skips. -/
def invertedConditional? (g : Graph) (condition : ItemId) (branch : Branch) (target jump : ItemId) :
    Option Conditional := do
  let endPos ← g.openTarget? jump .jmp
  let endAt ← g.findPos? endPos
  let text := negate (g.conditionText condition) (g.conditionPrecedence condition)
  let g := g.markProcessed jump
  let g := g.markOptional (g.onlyOpen .bra (g.next? jump))
  let g := g.markOptional (g.onlyJumpTo (branch.target + 2) (some target))
  match g.jumpPastElse? branch endAt with
  | some (last, newEnd) => pure ⟨g.markProcessed last, text, some endAt, newEnd⟩
  | none => pure ⟨g, text, none, endAt⟩

/-- Whether a branch skips a single jump. -/
def skipsJump (branch : Branch) : Bool :=
  branch.target = branch.pos + 4 || branch.target = branch.pos + 6

/-- The conditional that a branch makes. -/
def conditional? (g : Graph) (condition : ItemId) (branch : Branch) : Option Conditional := do
  let target ← g.findPos? branch.target
  let bra? := g.onlyOpen .bra (g.prev? target)
  let jump? := (g.onlyOpen .jmp (g.next? branch.item)).filter fun _ => skipsJump branch
  match jump?, bra? with
  | some jump, _ => g.invertedConditional? condition branch target jump
  | none, some bra => g.conditionalWithElse? condition branch bra
  | none, none => pure ⟨g, g.conditionText condition, none, target⟩

/-- Write the conditional that a condition starts, if there is one. -/
def structureConditional (stop : ItemId) (g : Graph) (condition : ItemId) : Graph :=
  match (g.forwardBranch? condition stop).bind fun branch =>
      (g.conditional? condition branch).map fun parts => (branch, parts) with
  | none => g
  | some (branch, parts) =>
    let marked := parts.graph.markProcessed branch.item
    let opened := marked.replaceByStatement condition ⟨openingLine "if" parts.text, .opens .ifThen⟩
    let halved := match parts.alternative.filter (· ≠ parts.endAt) with
      | some site =>
        opened.addStatement site ⟨closeBrace ++ " else " ++ openBrace, .alternative⟩
      | none => opened
    halved.addStatement parts.endAt ⟨closingLine "end-if", .closes .ifThen⟩

end Parley.Graph

namespace Parley.Pass

/-- Write the conditionals of the function `func`. -/
def findConditionals (func : Nat) : Pass Unit := modify fun d =>
  let conditions := d.graph.openExpressions (d.body func)
  d.onGraph fun g => conditions.foldl (Graph.structureConditional (d.bounds func).2) g

end Parley.Pass
