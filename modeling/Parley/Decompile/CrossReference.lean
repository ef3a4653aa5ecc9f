import Parley.Decompile.State
set_option autoImplicit false

/-!
# Cross references

Every position that a jump, branch or call leads to gets a label, and a count of those that lead there.
The first instruction is labelled as the start of the conversation and counts as referenced once more.
-/

namespace Parley

/-- The target of a call that leads nowhere. -/
def nowhere : UInt16 := 0xffff

namespace Item

/-- The item referred to once more, by its label or else by that of its position. -/
def referenced (item : Item) (target : UInt16) : Item :=
  let label := if item.xrefCount = 0 then labelName target else item.label.getD (labelName target)
  { item with label := some label, xrefCount := item.xrefCount + 1 }

end Item

namespace Pass

/-- Refer to the position `target` from a jump at `pos`; the result is the label there. -/
def reference (pos target : UInt16) : Pass (Option String) := do
  let d ← get
  match d.graph.findPos? target with
  | none => throw (.unresolvedJumpTarget pos target)
  | some site =>
    onGraph (·.modify site (·.referenced target))
    let d ← get
    pure (d.graph.item site).label

/-- The name of the imported function that a call at `pos` names. -/
def importedName (pos id : UInt16) : Pass String := do
  let d ← get
  match d.importedFunctions.get? id with
  | none => throw (.unknownIntrinsic pos id)
  | some item => pure item.name

/-- Find out where an instruction leads. -/
def resolveTarget (id : ItemId) : Pass Unit := do
  let d ← get
  let item := d.graph.item id
  match item.opcode? with
  | some .calli =>
    let name ← importedName item.pos item.operandOrZero
    onGraph (·.modify id (·.withTarget (some name) none))
  | some opcode =>
    let operand := item.opcodeItem?.bind (·.operand)
    match (Instruction.mk opcode operand).jumpTarget? item.pos with
    | none => pure ()
    | some target =>
      if opcode = .call ∧ target = nowhere then pure ()
      else
        let label ← reference item.pos target
        onGraph (·.modify id (·.withTarget label (some target)))
  | none => pure ()

/-- Find out where all instructions lead. -/
def collectReferences : Pass Unit := do
  let d ← get
  match d.graph.first? with
  | none => throw .emptyCode
  | some first =>
    onGraph (·.modify first fun item => { item with label := some startFunction, xrefCount := 1 })
    d.graph.order.forM resolveTarget

/-- Find out where all instructions lead, unless that is known. -/
def disassemble : Pass Unit := do
  let d ← get
  if d.stage = .fresh then
    collectReferences
    modify fun d => { d with stage := .disassembled }

end Pass

end Parley
