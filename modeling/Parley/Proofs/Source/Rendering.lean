import Parley.Proofs.Source.Tree
import Parley.Decompile.Analysis
set_option autoImplicit false

/-!
# How straight-line source is written

The reference printer writes a tree by recursion: the operand that was pushed first stands on the left,
except that a constant stands on the right of a test for equality, and an operand is put in parentheses
when the loosest operator in it binds looser than the one it stands under.  The expressions that
decompilation builds have the same texts.
-/

namespace Parley.Source

/-! ## Names -/

/-- Whether a character can stand in an identifier. -/
def isWordChar (c : Char) : Bool := c.isAlphanum || c = '_'

/-- Whether a text is an identifier: letters, digits and underscores, the first one no digit. -/
def isIdentifier : List Char → Bool
  | [] => false
  | c :: cs => (c.isAlpha || c = '_') && cs.all isWordChar

theorem isWordChar_of_isIdentifier {text : List Char} (h : isIdentifier text = true) :
    ∀ c ∈ text, isWordChar c = true := by
  cases text with
  | nil => simp
  | cons first rest =>
    simp only [isIdentifier, Bool.and_eq_true, Bool.or_eq_true, List.all_eq_true] at h
    intro c hc
    rcases List.mem_cons.1 hc with rfl | hc
    · rcases h.1 with h | h <;> simp [isWordChar, Char.isAlphanum, h]
    · exact h.2 c hc

theorem isDigit_decimal (word : UInt16) : ∀ c ∈ (Text.decimal word).toList, c.isDigit = true := by
  intro c hc
  rw [Text.decimal, Nat.toString_eq_ofList_toDigits, String.toList_ofList] at hc
  exact Nat.isDigit_of_mem_toDigits (by decide) (by decide) hc

/-- A word and a number behind it make an identifier. -/
theorem isIdentifier_decimal {mark : String} (h : isIdentifier mark.toList = true) (word : UInt16) :
    isIdentifier (mark ++ Text.decimal word).toList = true := by
  rw [String.toList_append]
  cases hmark : mark.toList with
  | nil =>
    rw [hmark] at h
    cases h
  | cons first rest =>
    rw [hmark] at h
    simp only [isIdentifier, List.cons_append, Bool.and_eq_true, List.all_append] at h ⊢
    refine ⟨h.1, h.2, ?_⟩
    rw [List.all_eq_true]
    intro c hc
    simp [isWordChar, Char.isAlphanum, isDigit_decimal word c hc]

/-- What globals and strings are called. -/
structure Names where
  globals : ImportTable
  strings : List String

namespace Names

/-- The names in an image with its string block. -/
def ofImage (image : Image) (strings : List String) : Names := ⟨image.globals, strings⟩

/-- The name of the global at a slot. -/
def global (names : Names) (slot : UInt16) : String :=
  match names.globals.get? slot with
  | some item => item.name
  | none => "global_" ++ Text.decimal slot

/-- Imported globals are called by identifiers. -/
def WellNamed (names : Names) : Prop :=
  ∀ entry ∈ names.globals.entries, isIdentifier entry.2.name.toList = true

instance (names : Names) : Decidable names.WellNamed :=
  inferInstanceAs (Decidable (∀ entry ∈ names.globals.entries, _))

theorem isIdentifier_global {names : Names} (h : names.WellNamed) (slot : UInt16) :
    isIdentifier (names.global slot).toList = true := by
  unfold global
  split
  · rename_i item hitem
    obtain ⟨entry, hentry, rfl⟩ := Option.map_eq_some_iff.1 hitem
    exact h entry (List.mem_of_find?_eq_some hentry)
  · exact isIdentifier_decimal (by decide) slot

/-- The literal of a string, with line feeds written as two characters. -/
def literal (names : Names) (id : UInt16) : String :=
  let text := names.strings.getD id.toNat ""
  "\"" ++ String.ofList (text.toList.flatMap fun c => if c = '\n' then ['\\', 'n'] else [c]) ++ "\""

end Names

/-! ## The reference printer -/

namespace Tree

/-- How tightly the loosest operator of a tree binds. -/
def precedence : Tree → Nat
  | unary _ operand => min operand.precedence unaryPrecedence
  | binary opcode left right => min (min left.precedence right.precedence) opcode.1.precedence
  | _ => atomPrecedence

/-- Whether a tree is a constant. -/
def isConst : Tree → Bool
  | const _ => true
  | _ => false

/-- Whether the operands of a binary operator change sides. -/
def swapsSides (opcode : BinaryOpcode) (left : Tree) : Bool :=
  opcode.1 = .testEq && left.isConst

/-- The text of an operand under an operator that binds as tightly as `outer`. -/
def enclose (outer own : Nat) (text : String) : String :=
  if own < outer then "(" ++ text ++ ")" else text

/-- The text of a tree. -/
def render (names : Names) : Tree → String
  | const value => Text.decimal value
  | localVar index => "local_" ++ Text.decimal index
  | param offset => "param" ++ Text.decimal (0 - offset - 1)
  | global slot => names.global slot
  | unary opcode operand =>
    opcode.1.operatorText ++ enclose unaryPrecedence operand.precedence (operand.render names)
  | binary opcode left right =>
    let leftText := enclose opcode.1.precedence left.precedence (left.render names)
    let rightText := enclose opcode.1.precedence right.precedence (right.render names)
    if swapsSides opcode left then rightText ++ " " ++ opcode.1.operatorText ++ " " ++ leftText
    else leftText ++ " " ++ opcode.1.operatorText ++ " " ++ rightText

end Tree

/-- The text of a variable. -/
def Place.render (names : Names) : Place → String
  | localVar index => "local_" ++ Text.decimal index
  | global slot => names.global slot

/-- The line of a statement. -/
def Stmt.render (names : Names) : Stmt → String
  | assign place value _ => place.render names ++ " = " ++ value.render names ++ ";"
  | say id => "say(" ++ names.literal id ++ ");"
  | .return value => "return " ++ value.render names ++ ";"
  | exit => "exit;"

/-- What is said is in the string block. -/
def Stmt.Speakable (names : Names) : Stmt → Prop
  | say id => id.toNat < names.strings.length
  | _ => True

instance (names : Names) : (stmt : Stmt) → Decidable (stmt.Speakable names)
  | .say id => inferInstanceAs (Decidable (id.toNat < _))
  | .assign _ _ _ | .return _ | .exit => .isTrue trivial

/-! ## The expressions of decompilation -/

namespace Tree

/-- The expression that decompilation builds for a tree. -/
def expr (names : Names) : Tree → Expr
  | const value => .const value
  | localVar index => .atom (Pass.localName index) false
  | param offset => .atom ("param" ++ Text.decimal (Pass.paramNumber offset)) false
  | global slot => .atom (names.global slot) false
  | unary opcode operand => .unary opcode (operand.expr names)
  | binary opcode left right =>
    if swapsSides opcode left then .binary opcode (right.expr names) (left.expr names)
    else .binary opcode (left.expr names) (right.expr names)

theorem isAddress_expr (names : Names) (tree : Tree) : (tree.expr names).isAddress = false := by
  cases tree with
  | binary opcode left right =>
    rw [expr]
    split <;> rfl
  | _ => rfl

theorem immediate?_expr (names : Names) (tree : Tree) :
    (tree.expr names).immediate?.isSome = tree.isConst := by
  cases tree with
  | binary opcode left right =>
    rw [expr]
    split <;> rfl
  | _ => rfl

theorem precedence_expr (names : Names) (tree : Tree) :
    (tree.expr names).precedence = tree.precedence := by
  induction tree with
  | unary opcode operand ih => rw [expr, Expr.precedence, precedence, ih]
  | binary opcode left right ihLeft ihRight =>
    rw [expr, precedence]
    split
    · rw [Expr.precedence, ihLeft, ihRight, Nat.min_comm right.precedence]
    · rw [Expr.precedence, ihLeft, ihRight]
  | _ => rfl

theorem wrapFor_eq_enclose (outer own : Nat) (text : String) :
    Expr.wrapFor outer own text = enclose outer own text := rfl

/-- Decompilation writes trees as the reference printer does. -/
theorem text_expr (names : Names) (tree : Tree) : (tree.expr names).text = tree.render names := by
  induction tree with
  | unary opcode operand ih =>
    rw [expr, Expr.text, render, wrapFor_eq_enclose, precedence_expr, ih]
  | binary opcode left right ihLeft ihRight =>
    rw [expr, render]
    split <;>
      rw [Expr.text, wrapFor_eq_enclose, wrapFor_eq_enclose, precedence_expr, precedence_expr, ihLeft,
        ihRight]
  | _ => rfl

end Tree

end Parley.Source
