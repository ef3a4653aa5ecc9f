import Parley.Decompile.Switch
import Parley.Decompile.Loop
import Parley.Decompile.Conditional
import Parley.Decompile.Jump
import Parley.Decompile.Signature
set_option autoImplicit false

/-!
# Decompilation of a conversation

The functions are taken in the order in which their calls are met, from the one at which the
conversation starts; each is decompiled once.  A function goes through analysis, combination, the
recovery of switches, loops and conditionals in this order, the jumps that are left, and its signature.
-/

namespace Parley.Pass

/-- Recover the control structures of the function `func`. -/
def structureFunction (func : Nat) : Pass Unit := do
  findSwitches func
  findWhileLoops func
  findDoWhileLoops func
  findConditionals func
  writeJumps func

/-- Decompile the function `func`; the result are the functions that it calls. -/
def decompileFunction (func : Nat) : Pass (List Nat) := do
  let callees ← analyze func
  combine func
  structureFunction func
  addSignature func
  pure callees

/-- The position of the first instruction of the function `func`. -/
def functionStart (d : Decompilation) (func : Nat) : UInt16 :=
  match d.functions[func]? with
  | some info => info.start
  | none => 0

/-- Decompile the functions of a queue and those that they call, where `visited` are the starts of those
already decompiled, taking at most `fuel` off the queue.  The result are the starts of all that were
decompiled. -/
def decompileQueue : Nat → List Nat → List UInt16 → Pass (List UInt16)
  | 0, _, visited => pure visited
  | _ + 1, [], visited => pure visited
  | fuel + 1, func :: queue, visited => do
    let d ← get
    let start := functionStart d func
    if visited.contains start then decompileQueue fuel queue visited
    else
      let visited := start :: visited
      let callees ← decompileFunction func
      let d ← get
      let fresh := callees.filter fun callee => !visited.contains (functionStart d callee)
      decompileQueue fuel (queue ++ fresh) visited

/-- Decompile all functions that are reached from the start, unless that is done.  Each function is
queued once for each of its calls at most, so there are no more turns than instructions and one. -/
def decompile : Pass Unit := do
  let d ← get
  if d.stage = .decompiled then pure ()
  else
    if d.stage = .fresh then collectReferences
    modify (·.discoverFunctions.relabelCalls)
    let d ← get
    match d.functionIndex? startFunction with
    | none => throw (.unknownFunction startFunction)
    | some start =>
      let reached ← decompileQueue (d.graph.size + 1) [start] []
      modify fun d => { d.dropAllUnreached reached with stage := .decompiled }

end Parley.Pass
