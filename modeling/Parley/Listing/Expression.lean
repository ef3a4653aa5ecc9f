import Parley.Code.Opcode
import Parley.Text.Number
set_option autoImplicit false

/-!
# Expressions

The values and addresses that straight-line code leaves on the stack, as trees, and their source form.
An operand is put in parentheses when it binds looser than the operator it stands under.  How tightly an
expression binds is the least of the precedences of its operators, so an operand keeps its parentheses
however deep the loose operator lies.
-/

namespace Parley

/-- A value or address as it is computed. -/
inductive Expr where
  /-- A pushed number, which is either a value or, where an address is wanted, a global. -/
  | const (value : UInt16)
  /-- Something with a source form of its own: a variable, an element, a call or a literal.  An address
  stands for the place, otherwise for what is stored there. -/
  | atom (source : String) (isAddress : Bool)
  /-- A unary operator on its operand. -/
  | unary (opcode : Opcode) (operand : Expr)
  /-- A binary operator between its operands. -/
  | binary (opcode : Opcode) (left right : Expr)
  deriving DecidableEq, Inhabited

namespace Expr

/-- How tightly the expression binds. -/
def precedence : Expr → Nat
  | const _ | atom _ _ => atomPrecedence
  | unary _ operand => min operand.precedence unaryPrecedence
  | binary opcode left right => min (min left.precedence right.precedence) opcode.precedence

/-- A text in parentheses. -/
def parenthesized (text : String) : String := "(" ++ text ++ ")"

/-- The text of an operand of precedence `own` under an operator of precedence `outer`. -/
def wrapFor (outer own : Nat) (text : String) : String :=
  if outer > own then parenthesized text else text

/-- The source form of the expression. -/
def text : Expr → String
  | const value => Text.decimal value
  | atom source _ => source
  | unary opcode operand =>
    opcode.operatorText ++ wrapFor unaryPrecedence operand.precedence operand.text
  | binary opcode left right =>
    wrapFor opcode.precedence left.precedence left.text ++ " " ++ opcode.operatorText ++ " " ++
      wrapFor opcode.precedence right.precedence right.text

/-- Whether the expression denotes a place rather than a value. -/
def isAddress : Expr → Bool
  | atom _ isAddress => isAddress
  | _ => false

/-- The number that was pushed, for a constant. -/
def immediate? : Expr → Option UInt16
  | const value => some value
  | _ => none

/-- The expression with a source form of its own. -/
def withText (expression : Expr) (source : String) : Expr := atom source expression.isAddress

/-- What is stored at the place of an address. -/
def contents (expression : Expr) : Expr := atom expression.text false

end Expr

end Parley
