import Parley.Decompile.Condition
set_option autoImplicit false

/-!
# Loops

A loop with its condition in front ends with a branch back to the condition; a loop with its condition
behind has a jump back to its first instruction behind the condition's branch.  The code range of each
loop is kept, for the jumps that continue it.
-/

namespace Parley

/-- The part of a decompilation that the recovery of loops works on. -/
structure LoopWork where
  graph : Graph
  /-- The code ranges of the loops found so far. -/
  ranges : List (UInt16 × UInt16)

namespace LoopWork

/-! ## Condition in front -/

/-- The branch that ends the loop with a condition in front, and the branch that tests the condition. -/
def whileLoop? (g : Graph) (condition stop : ItemId) : Option (Branch × ItemId) := do
  let branch ← g.forwardBranch? condition stop
  let exit ← g.findPos? branch.target
  let back ← g.prev? exit
  let target ← g.openTarget? back .bra
  guard (target ≤ (g.item back).pos)
  guard (target = (g.item condition).pos)
  pure (branch, back)

/-- Write the loop with this condition in front, if there is one. -/
def structureWhile (stop : ItemId) (work : LoopWork) (condition : ItemId) : LoopWork :=
  let g := work.graph
  match whileLoop? g condition stop with
  | none => work
  | some (branch, back) =>
    let range := ((g.item condition).pos, (g.item back).pos)
    let line := openingLine "while" (g.conditionText condition)
    let opened := g.replaceByStatement condition ⟨line, .opens .whileLoop⟩
    let marked := opened.markProcessed branch.item
    let closed := marked.replaceByStatement back ⟨closingLine "end-while", .closes .whileLoop⟩
    ⟨closed, range :: work.ranges⟩

/-! ## Condition behind -/

/-- The parts of a loop with its condition behind. -/
structure DoWhile where
  branch : Branch
  /-- The jump back. -/
  jump : ItemId
  /-- The position of the first instruction. -/
  body : UInt16
  /-- The item at that position. -/
  bodyItem : ItemId

/-- The loop with this condition behind. -/
def doWhile? (g : Graph) (condition stop : ItemId) : Option DoWhile := do
  let branch ← g.forwardBranch? condition stop
  let jump ← g.next? branch.item
  let body ← g.openTarget? jump .jmp
  guard (body ≤ branch.pos)
  let bodyItem ← g.findPos? body
  pure ⟨branch, jump, body, bodyItem⟩

/-- Write the loop with this condition behind, if there is one.  A second jump behind the first is taken
together with it. -/
def structureDoWhile (stop : ItemId) (work : LoopWork) (condition : ItemId) : LoopWork :=
  let g := work.graph
  match doWhile? g condition stop with
  | none => work
  | some loop =>
    let range := (loop.body, (g.item loop.jump).pos)
    let opened := g.addStatement loop.bodyItem ⟨"do " ++ openBrace, .opens .doWhile⟩
    let line := closeBrace ++ " while (" ++ opened.conditionText condition ++ ");"
    let closed := opened.replaceByStatement condition ⟨line, .closes .doWhile⟩
    let marked := closed.modifyAll [loop.branch.item, loop.jump] Item.markProcessed
    ⟨marked.markOptional (marked.onlyOpen .jmp (marked.next? loop.jump)), range :: work.ranges⟩

end LoopWork

namespace Pass

/-- Write loops of the function `func`, trying each condition in turn. -/
def findLoops (func : Nat) (write : ItemId → LoopWork → ItemId → LoopWork) : Pass Unit :=
  modify fun d =>
    let conditions := d.graph.openExpressions (d.body func)
    let work := conditions.foldl (write (d.bounds func).2) ⟨d.graph, d.loopRanges⟩
    { d with graph := work.graph, loopRanges := work.ranges }

/-- Write the loops of the function `func` with their condition in front. -/
def findWhileLoops (func : Nat) : Pass Unit := findLoops func LoopWork.structureWhile

/-- Write the loops of the function `func` with their condition behind. -/
def findDoWhileLoops (func : Nat) : Pass Unit := findLoops func LoopWork.structureDoWhile

end Pass

end Parley
