import Parley.Machine.Host
import Parley.Image.Basic
import Parley.Text.LetterCase
import Parley.Text.Blank
set_option autoImplicit false

/-!
# The stack machine

`Machine.step` carries out one instruction and `Machine.run` a bounded number of them.  A step that
faults leaves the instruction pointer on the faulting instruction and the machine finished; what the
instruction had popped by then stays popped.  Both are functions on a `Conversation`, the machine
together with the state of its host.
-/

namespace Parley

/-- The interpreter of one conversation. -/
structure Machine where
  image : Image
  stack : OperandStack
  strings : LocalStrings
  /-- The position of the next instruction. -/
  ip : UInt16
  /-- The base pointer of the present frame. -/
  bp : UInt16
  /-- The result register. -/
  result : UInt16
  /-- The number of open calls. -/
  depth : Nat
  finished : Bool

/-- Why a conversation ended. -/
inductive FinishReason where
  /-- It was ended by an instruction of its own. -/
  | exit
  /-- The outermost function returned. -/
  | return
  deriving DecidableEq

/-- What one step leads to. -/
inductive Step where
  | continue
  | finished (reason : FinishReason)
  deriving DecidableEq

/-- What a run leads to. -/
inductive RunOutcome where
  /-- The conversation ended with this step. -/
  | finished (reason : FinishReason) (steps : Nat)
  /-- The conversation goes on after this many steps. -/
  | stepLimit (steps : Nat)
  deriving DecidableEq

/-- A machine and the state of its host. -/
structure Conversation (σ : Type) where
  machine : Machine
  host : σ

/-- A computation on a conversation that may fault. -/
abbrev Exec (σ : Type) : Type → Type := EStateM MachineFault (Conversation σ)

namespace Machine

variable {σ : Type}

/-- The most calls that may be open. -/
def callDepthLimit : Nat := 256

/-- The base pointer before the first frame. -/
def unsetBp : UInt16 := 0xffff

/-- The value of local variables before the first write. -/
def localFill : UInt16 := 0xdddd

/-- A machine that has not been started. -/
def ofImage (image : Image) (strings : List String) : Machine where
  image
  stack := .ofSize OperandStack.standardSize
  strings := .ofList strings
  ip := 0
  bp := unsetBp
  result := 0
  depth := 0
  finished := true

/-! ## Primitive computations -/

/-- The machine. -/
def current : Exec σ Machine := fun c => .ok c.machine c

/-- Change the machine. -/
def modify (f : Machine → Machine) : Exec σ Unit := fun c =>
  .ok () { c with machine := f c.machine }

/-- Change the stack by an operation that may fault. -/
def onStack (f : OperandStack → Except MachineFault OperandStack) : Exec σ Unit := fun c =>
  match f c.machine.stack with
  | .ok stack => .ok () { c with machine := { c.machine with stack } }
  | .error fault => .error fault c

/-- The outcome of something that may fault. -/
def lift {α : Type} (result : Except MachineFault α) : Exec σ α := fun c =>
  match result with
  | .ok value => .ok value c
  | .error fault => .error fault c

/-- Put a value on the stack.  There is a slot for it before the stack is touched, so that nothing holds
the old stack while the new one is made. -/
def push (value : UInt16) : Exec σ Unit := fun c =>
  if c.machine.stack.hasSlot (c.machine.stack.sp + 1) then
    .ok () { c with machine := { c.machine with stack := c.machine.stack.extend value } }
  else .error (.stackOverflow (c.machine.stack.sp + 1)) c

/-- Write a slot of the stack, once it is known to be there. -/
def write (index value : UInt16) : Exec σ Unit := fun c =>
  if c.machine.stack.hasSlot index then
    .ok () { c with machine := { c.machine with stack := c.machine.stack.write index value } }
  else .error (.stackOverflow index) c

theorem push_eq (value : UInt16) : push (σ := σ) value = onStack (·.push value) := by
  funext c
  simp only [push, onStack, OperandStack.push]
  split <;> rfl

theorem write_eq (index value : UInt16) :
    write (σ := σ) index value = onStack (·.set index value) := by
  funext c
  simp only [write, onStack, OperandStack.set]
  split <;> rfl

/-- Take a value off the stack. -/
def pop : Exec σ UInt16 := fun c =>
  match c.machine.stack.pop with
  | .ok (value, stack) => .ok value { c with machine := { c.machine with stack } }
  | .error fault => .error fault c

/-- Put `count` unwritten local variables on the stack. -/
def pushLocals : Nat → Exec σ Unit
  | 0 => pure ()
  | count + 1 => do
    push localFill
    pushLocals count

/-- Announce the read of a global slot and take the host's value. -/
def readGlobal (host : Host σ) (access : GlobalAccess) : Exec σ UInt16 := fun c =>
  let (value, state) := host.readGlobal access c.host
  .ok value { c with host := state }

/-- Announce the write of a global slot. -/
def writeGlobal (host : Host σ) (access : GlobalAccess) : Exec σ Unit := fun c =>
  .ok () { c with host := host.writeGlobal access c.host }

/-! ## Values and texts -/

/-- A truth value as a word. -/
def truth (b : Bool) : UInt16 := if b then 1 else 0

/-- The value of a binary operator on its left and right operand; a division by zero has none, and neither
has an opcode that is no binary operator. -/
def evalBinary (opcode : Opcode) (left right : UInt16) : Option UInt16 :=
  match opcode with
  | .add => some (left + right)
  | .sub => some (left - right)
  | .mul => some (left * right)
  | .div => if right = 0 then none else some (left / right)
  | .mod => if right = 0 then none else some (left % right)
  | .or => some (truth (left ≠ 0 || right ≠ 0))
  | .and => some (truth (left ≠ 0 && right ≠ 0))
  | .testGt => some (truth (left > right))
  | .testGe => some (truth (left ≥ right))
  | .testLt => some (truth (left < right))
  | .testLe => some (truth (left ≤ right))
  | .testEq => some (truth (left = right))
  | .testNe => some (truth (left ≠ right))
  | _ => none

/-- The value of a unary operator. -/
def evalUnary (opcode : Opcode) (value : UInt16) : UInt16 :=
  match opcode with
  | .not => truth (value = 0)
  | _ => -value

/-- The value of a slot for a placeholder, zero where there is no slot. -/
def slotOrZero (m : Machine) (slot : UInt16) : UInt16 :=
  match m.stack.get slot with
  | .ok value => value
  | .error _ => 0

/-- The value that a placeholder reads. -/
def placeholderValue (m : Machine) (placeholder : Placeholder) : UInt16 :=
  let param := UInt16.ofInt placeholder.param
  match placeholder.source with
  | .global => m.slotOrZero param
  | .frame => m.slotOrZero (m.bp + param)
  | .pointer => m.slotOrZero (m.slotOrZero (m.bp + param))

/-- The local string with an id, empty if there is none. -/
def stringOrEmpty (m : Machine) (id : UInt16) : String := (m.strings.get? id).getD ""

/-- A text with its placeholders replaced by values of the machine. -/
def expand (m : Machine) (text : String) : String :=
  Placeholder.expand m.placeholderValue m.stringOrEmpty text

/-- The local string with an id as it is spoken. -/
def spoken (m : Machine) (id : UInt16) : String :=
  match m.strings.get? id with
  | some text => m.expand text
  | none => ""

/-- Add a local string. -/
def addString (m : Machine) (text : String) : UInt16 × Machine :=
  let (id, strings) := m.strings.add text
  (id, { m with strings })

/-! ## Start and end -/

/-- The machine at the start of a conversation, before its globals are loaded. -/
def atStart (m : Machine) : Machine :=
  { m with
    ip := 0
    bp := unsetBp
    result := 0
    depth := 0
    finished := false
    stack := m.stack.reset }

/-- Write values into the slots from `slot` on. -/
def loadGlobals (slot : Nat) : List UInt16 → Exec σ Unit
  | [] => pure ()
  | value :: rest => do
    write (UInt16.ofNat slot) value
    loadGlobals (slot + 1) rest

/-- Take the value of an imported global from the host. -/
def importGlobal (host : Host σ) (slot : UInt16) (item : Import) : Exec σ Unit := do
  let m ← current
  let value ← lift (m.stack.get slot)
  let value ← readGlobal host ⟨slot, some item.name, value⟩
  write slot value

/-- Take the values of imported globals from the host. -/
def importGlobals (host : Host σ) : List (UInt16 × Import) → Exec σ Unit
  | [] => pure ()
  | (slot, item) :: rest => do
    importGlobal host slot item
    importGlobals host rest

/-- Start the conversation: clear the registers and the stack, then load the private globals and the
imported ones. -/
def init (host : Host σ) (globals : List UInt16) : Exec σ Unit := do
  modify atStart
  let m ← current
  onStack (·.setSp (m.image.reservedGlobals - 1))
  loadGlobals 0 globals
  importGlobals host m.image.globals.entries

/-- The private globals after a run, for a list of the same length before it.  Values behind the end of
the stack stay as they were. -/
def savedGlobals (m : Machine) (globals : List UInt16) : List UInt16 :=
  globals.zipIdx.map fun (value, slot) =>
    match m.stack.get (UInt16.ofNat slot) with
    | .ok saved => saved
    | .error _ => value

/-! ## Instructions -/

/-- Where the machine goes after an instruction. -/
inductive Flow where
  /-- To the instruction behind it. -/
  | next
  /-- To a position. -/
  | goto (pos : UInt16)
  /-- Nowhere: the conversation ends. -/
  | finish (reason : FinishReason)
  deriving DecidableEq

/-- The opcode and operand word at `pos`; the operand is zero for opcodes without one. -/
def fetch (code : CodeWords) (pos : UInt16) : Except MachineFault (Opcode × UInt16) :=
  match code[pos.toNat]? with
  | none => .error (.codeOutOfBounds pos)
  | some word =>
    match Opcode.ofWord? word with
    | none => .error (.unknownOpcode pos word)
    | some opcode =>
      if opcode.takesOperand then
        match code[pos.toNat + 1]? with
        | none => .error (.codeOutOfBounds (pos + 1))
        | some operand => .ok (opcode, operand)
      else .ok (opcode, 0)

/-- The position that a branch at `pos` leads to. -/
def branchTarget (pos operand : UInt16) : UInt16 := operand + pos + 1

/-- Whether a text occurs in another. -/
def occursIn (needle haystack : String) : Bool :=
  (Text.splitOnce? needle.toList haystack.toList).isSome

/-- The result of an imported function that the machine carries out by itself: comparison of two strings
without regard to letter case, search of one in another, and the length of a string in bytes. -/
def builtin? (call : IntrinsicCall) : Option (Except MachineFault UInt16) :=
  if call.name = "compare" then some do
    let first ← call.stringArg 0
    let second ← call.stringArg 1
    pure (truth (Text.lowerCase first = Text.lowerCase second))
  else if call.name = "contains" then some do
    let haystack ← call.stringArg 0
    let needle ← call.stringArg 1
    pure (truth (occursIn (Text.lowerCase needle) (Text.lowerCase haystack)))
  else if call.name = "length" then some do
    let text ← call.stringArg 0
    pure (UInt16.ofNat text.utf8ByteSize)
  else none

/-- Call an imported function of the host. -/
def invoke (host : Host σ) (call : IntrinsicCall) : Exec σ Unit := fun c =>
  let reply := host.invoke call c.host
  .ok () {
    machine := { c.machine with
      result := reply.result
      strings := c.machine.strings.addAll reply.newStrings }
    host := reply.state }

/-- Call the imported function with an id. -/
def callIntrinsic (host : Host σ) (pos id : UInt16) : Exec σ Unit := do
  let m ← current
  match m.image.functionName? id with
  | none => throw (.unknownIntrinsic pos id)
  | some name =>
    let call : IntrinsicCall := ⟨id, name, pos, m.stack, m.strings⟩
    match builtin? call with
    | some outcome => do
      let result ← lift outcome
      modify fun m => { m with result }
    | none => invoke host call

/-- Push the value at the address on top of the stack.  The host may give another value for a global. -/
def fetchValue (host : Host σ) : Exec σ Unit := do
  let address ← pop
  let m ← current
  let value ← lift (m.stack.get address)
  if address < m.image.reservedGlobals then do
    let value ← readGlobal host ⟨address, m.image.globalName? address, value⟩
    push value
  else push value

/-- Store the value on top of the stack at the address below it.  The host learns of a global. -/
def storeValue (host : Host σ) : Exec σ Unit := do
  let value ← pop
  let address ← pop
  let m ← current
  if address < m.image.reservedGlobals then
    writeGlobal host ⟨address, m.image.globalName? address, value⟩
  write address value

/-- Speak the string whose id is on top of the stack. -/
def speak (host : Host σ) : Exec σ Unit := do
  let id ← pop
  let m ← current
  fun c => .ok () { c with host := host.say id (m.spoken id) c.host }

/-- Return from a function.  The return of the outermost one ends the conversation. -/
def returnFlow : Exec σ Flow := do
  let m ← current
  if m.depth ≤ 1 then
    modify fun m => { m with depth := 0 }
    pure (.finish .return)
  else
    modify fun m => { m with depth := m.depth - 1 }
    let caller ← pop
    pure (.goto (caller + 1))

/-- Carry out an instruction at `pos`. -/
def perform (host : Host σ) (pos : UInt16) (opcode : Opcode) (operand : UInt16) : Exec σ Flow := do
  match opcode with
  | .nop | .start | .respondOp => pure .next
  | .add | .mul | .sub | .div | .mod | .or | .and | .testGt | .testGe | .testLt | .testLe
  | .testEq | .testNe =>
    let right ← pop
    let left ← pop
    match evalBinary opcode left right with
    | some value => push value
    | none => throw (.divisionByZero pos)
    pure .next
  | .not | .neg =>
    let value ← pop
    push (evalUnary opcode value)
    pure .next
  | .jmp => pure (.goto operand)
  | .bra => pure (.goto (branchTarget pos operand))
  | .beq =>
    let value ← pop
    pure (if value = 0 then .goto (branchTarget pos operand) else .next)
  | .bne =>
    let value ← pop
    pure (if value = 0 then .next else .goto (branchTarget pos operand))
  | .call =>
    let m ← current
    if m.depth ≥ callDepthLimit then throw (.callDepthExceeded pos)
    push (pos + 1)
    modify fun m => { m with depth := m.depth + 1 }
    pure (.goto operand)
  | .calli =>
    callIntrinsic host pos operand
    pure .next
  | .ret => returnFlow
  | .pushi =>
    push operand
    pure .next
  | .pushiEff =>
    let m ← current
    push (m.bp + operand)
    pure .next
  | .pop =>
    let _ ← pop
    pure .next
  | .swap =>
    let first ← pop
    let second ← pop
    push first
    push second
    pure .next
  | .pushBp =>
    let m ← current
    push m.bp
    pure .next
  | .popBp =>
    let bp ← pop
    modify fun m => { m with bp }
    pure .next
  | .spToBp =>
    modify fun m => { m with bp := m.stack.sp }
    pure .next
  | .bpToSp =>
    let m ← current
    onStack (·.setSp m.bp)
    pure .next
  | .addSp =>
    let count ← pop
    pushLocals count.toNat
    pure .next
  | .fetchm =>
    fetchValue host
    pure .next
  | .sto =>
    storeValue host
    pure .next
  | .offset =>
    let index ← pop
    let base ← pop
    push (index + base - 1)
    pure .next
  | .saveReg =>
    let result ← pop
    modify fun m => { m with result }
    pure .next
  | .pushReg =>
    let m ← current
    push m.result
    pure .next
  | .strCmp => throw (.unsupportedOpcode pos opcode)
  | .exitOp => pure (.finish .exit)
  | .sayOp =>
    speak host
    pure .next

/-- Go where an instruction at `pos` leads. -/
def follow (pos : UInt16) (opcode : Opcode) : Flow → Exec σ Step
  | .next => do
    modify fun m => { m with ip := pos + 1 + UInt16.ofNat opcode.operandCount }
    pure .continue
  | .goto target => do
    modify fun m => { m with ip := target }
    pure .continue
  | .finish reason => pure (.finished reason)

/-- Carry out the instruction at the instruction pointer. -/
def execute (host : Host σ) : Exec σ Step := do
  let m ← current
  let pos := m.ip
  let (opcode, operand) ← lift (fetch m.image.code pos)
  let flow ← perform host pos opcode operand
  follow pos opcode flow

/-- The conversation with its machine finished. -/
def finish (c : Conversation σ) : Conversation σ :=
  { c with machine := { c.machine with finished := true } }

/-- Carry out one instruction, unless the machine is finished. -/
def step (host : Host σ) : Exec σ Step := fun c =>
  if c.machine.finished then .error .finished c
  else
    match execute host c with
    | .ok .continue c => .ok .continue c
    | .ok (.finished reason) c => .ok (.finished reason) (finish c)
    | .error fault c => .error fault (finish c)

/-- Carry out instructions until the machine finishes, at most `limit` of them, after `steps` were carried
out before. -/
def runFrom (host : Host σ) (steps : Nat) : Nat → Exec σ RunOutcome
  | 0, c => .ok (.stepLimit steps) c
  | limit + 1, c =>
    match step host c with
    | .ok .continue c => runFrom host (steps + 1) limit c
    | .ok (.finished reason) c => .ok (.finished reason (steps + 1)) c
    | .error fault c => .error fault c

/-- Carry out instructions until the machine finishes, at most `limit` of them. -/
def run (host : Host σ) (limit : Nat) : Exec σ RunOutcome := runFrom host 0 limit

end Machine

end Parley
