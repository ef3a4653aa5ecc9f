set_option autoImplicit false

/-!
# Faults of assembly text

Each fault names the line it was found on, counted from one.
-/

namespace Parley

/-- Why a text is no program. -/
inductive AssemblyFault where
  /-- No opcode has this name. -/
  | unknownMnemonic (line : Nat) (name : String)
  /-- The mnemonic stands alone and needs an operand. -/
  | missingOperand (line : Nat) (mnemonic : String)
  /-- The mnemonic has an operand and takes none. -/
  | unexpectedOperand (line : Nat) (mnemonic : String)
  /-- The text is neither a number nor a label where an operand stands. -/
  | badOperand (line : Nat) (text : String)
  /-- No line defines the label. -/
  | undefinedLabel (line : Nat) (label : String)
  /-- Two definitions of the label. -/
  | duplicateLabel (line : Nat) (label : String)
  deriving DecidableEq

namespace AssemblyFault

/-- The line a fault was found on. -/
def line : AssemblyFault → Nat
  | unknownMnemonic line _ | missingOperand line _ | unexpectedOperand line _
  | badOperand line _ | undefinedLabel line _ | duplicateLabel line _ => line

/-- What the fault says about its line. -/
def detail : AssemblyFault → String
  | unknownMnemonic _ name => "unknown mnemonic '" ++ name ++ "'"
  | missingOperand _ mnemonic => mnemonic ++ " requires an operand"
  | unexpectedOperand _ mnemonic => mnemonic ++ " takes no operand"
  | badOperand _ text => "cannot parse operand '" ++ text ++ "'"
  | undefinedLabel _ label => "undefined label '" ++ label ++ "'"
  | duplicateLabel _ label => "label '" ++ label ++ "' defined twice"

/-- The wording of an assembly fault. -/
def message (fault : AssemblyFault) : String :=
  "line " ++ toString fault.line ++ ": " ++ fault.detail

end AssemblyFault

end Parley
