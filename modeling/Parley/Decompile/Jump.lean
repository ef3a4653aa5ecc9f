import Parley.Decompile.Condition
set_option autoImplicit false

/-!
# Jumps that are left

What no switch, loop or conditional explains stays a jump: a return, if it leads to the end of its
function, the continuation of a loop, if it leads to the start of one from inside, or else a jump to a
label.  A branch that is left takes the nearest expression before it as its condition.
-/

namespace Parley.Pass

/-- Whether a jump at `pos` to `target` continues a loop with one of the code ranges. -/
def isContinue (ranges : List (UInt16 × UInt16)) (pos target : UInt16) : Bool :=
  ranges.any fun (head, tail) => head = target && head < pos && pos < tail

/-- Write the label of a jump's target, unless it is one of those written before; the result are those
written. -/
def addGotoLabel (written : List UInt16) (target : UInt16) (label : String) : Pass (List UInt16) := do
  if written.contains target then pure written
  else
    let d ← get
    match d.graph.findPos? target with
    | some site => onGraph (·.addStatement site ⟨label ++ ":;", .label label⟩)
    | none => pure ()
    pure (target :: written)

/-- Write a jump that is left. -/
def writeJump (func : Nat) (written : List UInt16) (id : ItemId) (target : UInt16) (label : String) :
    Pass (List UInt16) := do
  let d ← get
  let stop := (d.functions[func]?).map (·.stop)
  if stop = some target then
    let _ ← replaceByStatement id (.plain "return;")
    pure written
  else if isContinue d.loopRanges (d.graph.item id).pos target then
    let _ ← replaceByStatement id ⟨"continue;", .continues⟩
    pure written
  else
    let _ ← replaceByStatement id ⟨"goto " ++ label ++ ";", .goto label⟩
    addGotoLabel written target label

/-- The text of a jump to a label on a condition: a branch that is taken when its condition is false tests
the negation. -/
def gotoIfText (opcode : Opcode) (condition label : String) : String :=
  let tested := if opcode = .beq then "!(" ++ condition ++ ")" else condition
  "if (" ++ tested ++ ") goto " ++ label ++ ";"

/-- Write a branch that is left. -/
def writeBranch (func : Nat) (written : List UInt16) (id : ItemId) (opcode : Opcode)
    (target : UInt16) (label : String) : Pass (List UInt16) := do
  let d ← get
  let candidates := d.graph.openExpressions (d.graph.backBetween (d.bounds func).1 id)
  match candidates.head? with
  | none => throw (.operandCountMismatch (d.graph.item id).pos 1 0)
  | some condition =>
    let text := gotoIfText opcode (d.graph.conditionText condition) label
    onGraph (·.markProcessed id)
    let _ ← replaceByStatement condition ⟨text, .gotoIf label⟩
    addGotoLabel written target label

/-- Write an instruction that is left, if it is a jump or branch; the result are the targets whose labels
are written. -/
def writeLeftover (func : Nat) (written : List UInt16) (id : ItemId) : Pass (List UInt16) := do
  let d ← get
  match (d.graph.item id).opcodeItem? with
  | none => pure written
  | some op =>
    match op.opcode, op.targetPos with
    | some opcode, some target =>
      let label := op.targetLabel.getD (labelName target)
      match opcode with
      | .jmp | .bra => writeJump func written id target label
      | .beq | .bne => writeBranch func written id opcode target label
      | _ => pure written
    | _, _ => pure written

/-- Write the jumps and branches that are left in the function `func`. -/
def writeJumps (func : Nat) : Pass Unit := do
  let d ← get
  let leftovers := (d.body func).filter fun id =>
    !(d.graph.item id).processed && (d.graph.item id).isOpcodeItem
  let _ ← leftovers.foldlM (writeLeftover func) []

end Parley.Pass
