import Parley.Assembly.Fault
import Parley.Code.Opcode
import Parley.Text.Number
import Parley.Text.Blank
set_option autoImplicit false

/-!
# Lines of assembly text

A line holds any number of label definitions, then at most one statement: a mnemonic with its operand,
or a raw word.  A comment runs from a semicolon or two slashes to the end of the line.  An operand is
a number, decimal or hexadecimal, with a minus sign for the two's complement of a decimal one, or the
name of a label.
-/

namespace Parley.Assembly

/-! ## Operands -/

/-- An operand as written. -/
inductive Operand where
  /-- A number. -/
  | value (word : UInt16)
  /-- The position of a label. -/
  | label (name : String)
  deriving DecidableEq

/-- Whether a character may stand in a label. -/
def isLabelChar (c : Char) : Bool :=
  Text.isAsciiAlphanumeric c || c == '_' || c == '.'

/-- The operand that a text spells. -/
def Operand.ofText? (text : List Char) : Option Operand :=
  match text with
  | '0' :: 'x' :: digits | '0' :: 'X' :: digits => (Text.word? 16 digits).map .value
  | '-' :: digits =>
    ((Text.integer32? digits).filter (· ≤ 0x8000)).map fun n => .value (UInt16.ofInt (-n))
  | [] => none
  | c :: _ =>
    if Text.isDecimalDigit c then (Text.word? 10 text).map .value
    else if text.all isLabelChar then some (.label (String.ofList text))
    else none

/-- The operand that a text on line `line` spells. -/
def Operand.parse (line : Nat) (text : List Char) : Except AssemblyFault Operand :=
  match Operand.ofText? text with
  | some operand => .ok operand
  | none => .error (.badOperand line (String.ofList text))

/-! ## Statements -/

/-- What a line puts into the code. -/
inductive Statement where
  /-- One word as it is. -/
  | word (value : UInt16)
  /-- An instruction. -/
  | instruction (opcode : Opcode) (operand : Option Operand)
  deriving DecidableEq

/-- The number of code words of a statement. -/
def Statement.size : Statement → Nat
  | .word _ => 1
  | .instruction opcode _ => opcode.operandCount + 1

/-- The mnemonic of a raw word. -/
def rawMnemonic : String := ".word"

/-- The raw word with an operand, which is no label. -/
def parseRaw (line : Nat) (operand : Option (List Char)) : Except AssemblyFault Statement :=
  match operand with
  | none => .error (.missingOperand line rawMnemonic)
  | some text =>
    match Operand.parse line text with
    | .ok (.value value) => .ok (.word value)
    | .ok (.label name) => .error (.badOperand line name)
    | .error fault => .error fault

/-- The instruction with a mnemonic and perhaps an operand. -/
def parseInstruction (line : Nat) (name : String) (operand : Option (List Char)) :
    Except AssemblyFault Statement :=
  match Opcode.ofMnemonic? name with
  | none => .error (.unknownMnemonic line name)
  | some opcode =>
    match opcode.takesOperand, operand with
    | true, some text => (Operand.parse line text).map fun operand => .instruction opcode (some operand)
    | true, none => .error (.missingOperand line opcode.mnemonic)
    | false, some _ => .error (.unexpectedOperand line opcode.mnemonic)
    | false, none => .ok (.instruction opcode none)

/-- The statement spelled by the words of a line, none if there are no words. -/
def parseStatement (line : Nat) : List (List Char) → Except AssemblyFault (Option Statement)
  | [] => .ok none
  | _ :: _ :: extra :: _ => .error (.badOperand line (String.ofList extra))
  | name :: rest =>
    let operand := rest.head?
    let name := String.ofList name
    if name.map Char.toLower = rawMnemonic then (parseRaw line operand).map some
    else (parseInstruction line name operand).map some

/-! ## Comments and labels -/

/-- The line without its comment. -/
def withoutComment : List Char → List Char
  | [] => []
  | ';' :: _ => []
  | '/' :: '/' :: _ => []
  | c :: rest => c :: withoutComment rest

/-- The label defined at the start of a text, and what stands behind its colon. -/
def splitLabel? (text : List Char) : Option (List Char × List Char) :=
  (Text.splitOnce? [':'] text).bind fun (head, rest) =>
    let name := Text.trim head
    if !name.isEmpty && name.all isLabelChar then some (name, rest) else none

/-- The labels defined at the start of a text, and what stands behind them, looking for at most `fuel`
labels. -/
def splitLabels : Nat → List Char → List String × List Char
  | 0, text => ([], text)
  | fuel + 1, text =>
    match splitLabel? text with
    | none => ([], text)
    | some (name, rest) =>
      let (names, rest) := splitLabels fuel (Text.trim rest)
      (String.ofList name :: names, rest)

/-- A line taken apart. -/
structure Line where
  /-- The labels it defines, in order. -/
  labels : List String
  /-- The words of its statement. -/
  words : List (List Char)

/-- The parts of a line of text.  Every label takes two characters at least, so the text's length
bounds their number. -/
def Line.ofText (raw : List Char) : Line :=
  let text := Text.trim (withoutComment raw)
  let (labels, rest) := splitLabels text.length text
  ⟨labels, Text.words rest⟩

end Parley.Assembly
