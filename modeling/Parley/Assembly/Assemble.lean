import Parley.Assembly.Line
import Parley.Code.Instruction
set_option autoImplicit false

/-!
# Assembling a program

The first pass places the statements of the lines one behind the other and notes where each label
stands; the second writes the words, with the positions of the labels filled in.  The operand of a
branch is the distance from the operand word to the label; the operand of every other instruction is
the label's position.  Positions wrap at 16 bits.
-/

namespace Parley.Assembly

/-- A statement at its position. -/
structure Placed where
  line : Nat
  pos : UInt16
  statement : Statement

/-- The program as far as it has been read. -/
structure Draft where
  /-- The labels met so far with their positions, the latest first. -/
  labels : List (String × UInt16)
  /-- The statements placed so far, the latest first. -/
  placed : List Placed
  /-- The position of the next statement. -/
  pos : UInt16

namespace Draft

/-- The draft before the first line. -/
def empty : Draft := ⟨[], [], 0⟩

/-- Define a label at the present position. -/
def define (line : Nat) (draft : Draft) (label : String) : Except AssemblyFault Draft :=
  if (draft.labels.lookup label).isSome then .error (.duplicateLabel line label)
  else .ok { draft with labels := (label, draft.pos) :: draft.labels }

/-- Place a statement at the present position. -/
def place (draft : Draft) (line : Nat) (statement : Statement) : Draft :=
  { draft with
    placed := ⟨line, draft.pos, statement⟩ :: draft.placed
    pos := draft.pos + UInt16.ofNat statement.size }

/-- Take in a line: first its labels, then its statement. -/
def addLine (draft : Draft) (line : Nat) (text : List Char) : Except AssemblyFault Draft := do
  let parts := Line.ofText text
  let draft ← parts.labels.foldlM (define line) draft
  match ← parseStatement line parts.words with
  | none => pure draft
  | some statement => pure (draft.place line statement)

end Draft

/-- The first pass over lines of which the first has number `line`. -/
def draftFrom (draft : Draft) (line : Nat) : List (List Char) → Except AssemblyFault Draft
  | [] => .ok draft
  | text :: rest =>
    match draft.addLine line text with
    | .ok draft => draftFrom draft (line + 1) rest
    | .error fault => .error fault

/-- The operand word of an instruction at `pos` for a label at `target`. -/
def labelOperand (opcode : Opcode) (pos target : UInt16) : UInt16 :=
  if opcode.info.format = .relative then target - (pos + 1) else target

/-- The words of a placed statement. -/
def Placed.encode (labels : List (String × UInt16)) (placed : Placed) :
    Except AssemblyFault (List UInt16) :=
  match placed.statement with
  | .word value => .ok [value]
  | .instruction opcode none => .ok [opcode.toWord]
  | .instruction opcode (some (.value word)) => .ok [opcode.toWord, word]
  | .instruction opcode (some (.label name)) =>
    match labels.lookup name with
    | some target => .ok [opcode.toWord, labelOperand opcode placed.pos target]
    | none => .error (.undefinedLabel placed.line name)

/-- The second pass: the words of the placed statements, in order. -/
def encodeAll (labels : List (String × UInt16)) : List Placed → Except AssemblyFault (List UInt16)
  | [] => .ok []
  | placed :: rest => do
    let words ← placed.encode labels
    let others ← encodeAll labels rest
    pure (words ++ others)

end Parley.Assembly

namespace Parley

/-- The code words of a program text. -/
def assemble (source : String) : Except AssemblyFault CodeWords := do
  let draft ← Assembly.draftFrom .empty 1 (Text.lines source.toList)
  let words ← Assembly.encodeAll draft.labels draft.placed.reverse
  pure words.toArray

end Parley
