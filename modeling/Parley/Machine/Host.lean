import Parley.Machine.Stack
import Parley.Machine.Strings
import Parley.Menu
set_option autoImplicit false

/-!
# Hosts

A machine talks to the world through its host: it speaks lines, calls imported functions and announces
reads and writes of global slots.  A host is a record of functions on a state of its own, so whatever a
conversation does to the world is in that state afterwards.
-/

namespace Parley

/-- A read or write of a global slot. -/
structure GlobalAccess where
  slot : UInt16
  /-- The name of the imported global at the slot. -/
  name : Option String
  /-- The present value before a read, the new value before a write. -/
  value : UInt16
  deriving DecidableEq

/-! ## Calls of imported functions -/

/-- The call of an imported function.  Its arguments are addresses: below the number of arguments, on top
of the stack, lies the address of the first argument, below that the next. -/
structure IntrinsicCall where
  id : UInt16
  name : String
  /-- The position of the calling instruction. -/
  pos : UInt16
  stack : OperandStack
  strings : LocalStrings

namespace IntrinsicCall

/-- The number of arguments that the caller names. -/
def argCount (call : IntrinsicCall) : UInt16 :=
  match call.stack.get call.stack.sp with
  | .ok count => count
  | .error _ => 0

/-- The address of argument `index`. -/
def arg (call : IntrinsicCall) (index : UInt16) : Except MachineFault UInt16 :=
  let slot := call.stack.sp - 1 - index
  if slot.toNat < call.stack.depth then call.stack.get slot
  else .error (.stackUnderflow slot)

/-- The value at the address of argument `index`. -/
def argValue (call : IntrinsicCall) (index : UInt16) : Except MachineFault UInt16 :=
  (call.arg index).bind call.stack.get

/-- The values of all arguments, zero for those that cannot be read. -/
def argValues (call : IntrinsicCall) : List UInt16 :=
  (List.range call.argCount.toNat).map fun index =>
    match call.argValue (UInt16.ofNat index) with
    | .ok value => value
    | .error _ => 0

/-- The local string whose id is the value of argument `index`. -/
def stringArg (call : IntrinsicCall) (index : UInt16) : Except MachineFault String :=
  (call.argValue index).bind fun id =>
    match call.strings.get? id with
    | some text => .ok text
    | none => .error (.stringOutOfRange call.pos id)

/-- The words from `address` on up to the first zero, looking at no more than `fuel` slots. -/
def wordsFrom (stack : OperandStack) : Nat → UInt16 → Except MachineFault (List UInt16)
  | 0, address => .error (.stackOverflow address)
  | fuel + 1, address =>
    (stack.get address).bind fun word =>
      if word = 0 then .ok []
      else (wordsFrom stack fuel (address + 1)).map (word :: ·)

/-- The list of words at `address`, which a zero ends.  A list that no zero ends runs into the end of the
stack, one slot behind the last. -/
def wordList (call : IntrinsicCall) (address : UInt16) : Except MachineFault (List UInt16) :=
  wordsFrom call.stack (call.stack.slots.size + 1) address

/-- The ids of the answers that a menu offers. -/
def menuAnswers (call : IntrinsicCall) : Except MachineFault (List UInt16) :=
  (call.arg 0).bind call.wordList

/-- The answers whose flag is set, where the flags stand one behind the other from `flags` on. -/
def keepFlagged (stack : OperandStack) (flags : UInt16) :
    List UInt16 → Except MachineFault (List UInt16)
  | [] => .ok []
  | answer :: rest => do
    let flag ← stack.get flags
    let kept ← keepFlagged stack (flags + 1) rest
    pure (if flag = 0 then kept else answer :: kept)

/-- The ids of the answers that a menu with flags offers. -/
def flaggedMenuAnswers (call : IntrinsicCall) : Except MachineFault (List UInt16) := do
  let answers ← call.menuAnswers
  let flags ← call.arg 1
  keepFlagged call.stack flags answers

end IntrinsicCall

/-- The answers that a menu offers; none if they cannot be read. -/
def IntrinsicCall.offered (call : IntrinsicCall) (kind : MenuKind) : List UInt16 :=
  let answers := match kind with
    | .plain => call.menuAnswers
    | .flagged => call.flaggedMenuAnswers
  match answers with
  | .ok ids => ids
  | .error _ => []

/-! ## The host -/

/-- What a host answers to the call of an imported function. -/
structure IntrinsicReply (σ : Type) where
  /-- The new value of the result register. -/
  result : UInt16
  /-- The local strings that the function makes. -/
  newStrings : List String
  state : σ

/-- The world around a machine, with a state of type `σ`. -/
structure Host (σ : Type) where
  /-- Hear a line: the id of the string, and its text with the placeholders replaced. -/
  say : UInt16 → String → σ → σ
  /-- Carry out an imported function. -/
  invoke : IntrinsicCall → σ → IntrinsicReply σ
  /-- Give the value of a global slot. -/
  readGlobal : GlobalAccess → σ → UInt16 × σ
  /-- Observe a write to a global slot. -/
  writeGlobal : GlobalAccess → σ → σ

/-- The host that hears nothing and answers every function with zero. -/
def Host.silent : Host Unit where
  say _ _ state := state
  invoke _ state := ⟨0, [], state⟩
  readGlobal access state := (access.value, state)
  writeGlobal _ state := state

end Parley
