import Parley.Decompile.Condition
set_option autoImplicit false

/-!
# Switches

A case is a test of the subject for equality, a branch to the next case, and a body that ends with a
jump to the place behind the switch, to which all its cases jump.  Two cases make a switch; further ones
belong to it as long as they test the same subject and jump to the same place.
-/

namespace Parley

/-- A case of a switch. -/
structure SwitchCase where
  /-- The branch to the next case. -/
  branch : ItemId
  /-- The jump that ends the body. -/
  exit : ItemId
  /-- A second such jump directly before it. -/
  extraExit : Option ItemId
  /-- Where the next case starts. -/
  next : UInt16
  /-- Where the jump leads. -/
  join : UInt16

namespace Graph

/-- The case whose test a condition may be, in a function that ends at `stop`. -/
def switchCase? (g : Graph) (condition stop : ItemId) : Option SwitchCase := do
  let branch ← g.forwardBranch? condition stop
  let next ← g.findPos? branch.target
  let exit ← g.prev? next
  let join ← g.openTarget? exit .jmp
  guard (join > branch.pos)
  pure ⟨branch.item, exit, g.onlyJumpTo join (g.prev? exit), branch.target, join⟩

/-- The condition at a position, if it tests `subject` for equality. -/
def caseCondition? (g : Graph) (pos : UInt16) (subject : String) : Option ItemId := do
  let id ← g.findPos? pos
  guard (g.item id).isOpenExpression
  let (left, _) ← splitComparison? (g.conditionText id)
  guard (left = subject)
  pure id

/-- The case that follows a case of a switch on `subject`, with its condition. -/
def followingCase? (g : Graph) (case : SwitchCase) (subject : String) (stop : ItemId) :
    Option (ItemId × SwitchCase) := do
  let id ← g.caseCondition? case.next subject
  guard ((g.item id).pos < case.join)
  let following ← g.switchCase? id stop
  guard (following.join = case.join)
  pure (id, following)

/-- Write a case of a switch in the place of its condition and of its jumps. -/
def writeCase (g : Graph) (condition : ItemId) (case : SwitchCase) : Graph :=
  let value := match splitComparison? (g.conditionText condition) with
    | some (_, right) => right
    | none => ""
  let opened := g.replaceByStatement condition ⟨"case " ++ value ++ ":", .opens .case⟩
  let marked := opened.modifyAll ([case.branch, case.exit] ++ case.extraExit.toList) Item.markProcessed
  marked.replaceByStatement (case.extraExit.getD case.exit) ⟨"break;", .closes .case⟩

/-- Write a case and those that follow it, at most `fuel` of them; the result is where the last one
leads. -/
def writeCases (subject : String) (stop : ItemId) :
    Nat → Graph → ItemId → SwitchCase → Graph × UInt16
  | 0, g, _, case => (g, case.next)
  | fuel + 1, g, condition, case =>
    let g := g.writeCase condition case
    match g.followingCase? case subject stop with
    | some (condition, case) => writeCases subject stop fuel g condition case
    | none => (g, case.next)

/-- The subject and first case of the switch that starts with a condition. -/
def switchAt? (g : Graph) (first stop : ItemId) : Option (String × SwitchCase) := do
  let (subject, _) ← splitComparison? (g.conditionText first)
  let case ← g.switchCase? first stop
  let _ ← g.caseCondition? case.next subject
  pure (subject, case)

/-- Write the switch that starts with a condition, if there is one.  There are no more cases than
items. -/
def structureSwitch (stop : ItemId) (g : Graph) (first : ItemId) : Graph :=
  match if (g.item first).isOpenExpression then g.switchAt? first stop else none with
  | none => g
  | some (subject, case) =>
    let opened := g.replaceByStatement first ⟨openingLine "switch" subject, .opens .switch⟩
    let (written, next) := writeCases subject stop g.size opened first case
    match (written.findPos? next).bind written.prev? with
    | some site => written.addStatement site ⟨closingLine "end-switch", .closes .switch⟩
    | none => written

end Graph

namespace Pass

/-- Write the switches of the function `func`. -/
def findSwitches (func : Nat) : Pass Unit := modify fun d =>
  let conditions := d.graph.openExpressions (d.body func)
  d.onGraph fun g => conditions.foldl (Graph.structureSwitch (d.bounds func).2) g

end Pass

end Parley
