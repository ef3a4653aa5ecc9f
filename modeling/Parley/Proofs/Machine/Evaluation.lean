import Parley.Proofs.Machine.Postfix
import Parley.Proofs.Source.Listing
set_option autoImplicit false

/-!
# Evaluation of expressions

Expression trees are terms: a local variable is the word at an address relative to the base pointer, a
parameter the word at the address that lies there.  So the code of a tree pushes its value, and the code of
a return moves it to the result register.
-/

namespace Parley

/-! ## Values of trees -/

namespace Source.Tree

/-- The value of a tree where `memory` holds the words at addresses and `bp` is the base pointer; there is
none if a divisor is zero. -/
def value? (bp : UInt16) (memory : UInt16 → UInt16) : Tree → Option UInt16
  | const value => some value
  | localVar index => some (memory (bp + index))
  | param offset => some (memory (memory (bp + offset)))
  | global slot => some (memory slot)
  | unary opcode operand => (operand.value? bp memory).map (Machine.evalUnary opcode)
  | binary opcode left right =>
    (left.value? bp memory).bind fun x =>
      (right.value? bp memory).bind fun y => Machine.evalBinary opcode x y

/-- The addresses that a tree reads. -/
def reads (bp : UInt16) (memory : UInt16 → UInt16) : Tree → List UInt16
  | const _ => []
  | localVar index => [bp + index]
  | param offset => [bp + offset, memory (bp + offset)]
  | global slot => [slot]
  | unary _ operand => operand.reads bp memory
  | binary _ left right => left.reads bp memory ++ right.reads bp memory

/-- The number of stack slots that the code of a tree uses. -/
def height : Tree → Nat
  | unary _ operand => operand.height
  | binary _ left right => max left.height (right.height + 1)
  | _ => 1

/-- The term that a tree stands for. -/
def term : Tree → Machine.Term
  | const value => .const value
  | localVar index => .load (.frame index)
  | param offset => .load (.load (.frame offset))
  | global slot => .load (.const slot)
  | unary opcode operand => .unary opcode operand.term
  | binary opcode left right => .binary opcode left.term right.term

variable {bp : UInt16} {memory : UInt16 → UInt16}

theorem code_term (tree : Tree) : tree.term.code = tree.code := by
  induction tree with
  | unary opcode operand ih => rw [term, Machine.Term.code, code, ih]
  | binary opcode left right ihLeft ihRight => rw [term, Machine.Term.code, code, ihLeft, ihRight]
  | _ => rfl

theorem height_term (tree : Tree) : tree.term.height = tree.height := by
  induction tree with
  | unary opcode operand ih => exact ih
  | binary opcode left right ihLeft ihRight =>
    rw [term, Machine.Term.height, height, ihLeft, ihRight]
  | _ => rfl

theorem value?_term (tree : Tree) : tree.term.value? bp memory = tree.value? bp memory := by
  induction tree with
  | unary opcode operand ih =>
    have heval : Machine.evalUnary opcode =
        fun x => UInt16.ofNat (Machine.unaryMeaning opcode x.toNat) :=
      funext (Machine.evalUnary_eq opcode)
    rw [term, Machine.Term.value?, value?, ih, heval]
  | binary opcode left right ihLeft ihRight =>
    simp only [term, Machine.Term.value?, value?, ihLeft, ihRight, Machine.evalBinary_eq]
  | _ => rfl

theorem reads_term (tree : Tree) : tree.term.reads bp memory = tree.reads bp memory := by
  induction tree with
  | unary opcode operand ih => exact ih
  | binary opcode left right ihLeft ihRight => rw [term, Machine.Term.reads, reads, ihLeft, ihRight]
  | _ => rfl

end Source.Tree

namespace Machine

open Fallible Source

variable {σ : Type} {host : Host σ} {c : Conversation σ}

/-! ## Runs -/

/-- The code of a tree pushes its value. -/
theorem reaches_tree (hhost : Host.Transparent host) (hgoing : c.machine.finished = false)
    {memory : UInt16 → UInt16} {bound : Nat} (tree : Tree) {index : Nat} {stack : OperandStack}
    {value : UInt16} (hcode : CodeAt c.machine.image.code index tree.code)
    (hroom : stack.Room tree.height) (hholds : Holds memory bound stack)
    (hreads : ∀ address ∈ tree.reads c.machine.bp memory, address.toNat < bound)
    (hvalue : tree.value? c.machine.bp memory = some value) :
    ∃ stack', Reaches host (c.moved index stack)
        (c.moved (index + (encode tree.code).length) stack') ∧
      stack.Pushed value stack' := by
  rw [← Tree.code_term] at hcode ⊢
  rw [← Tree.height_term] at hroom
  rw [← Tree.reads_term] at hreads
  rw [← Tree.value?_term] at hvalue
  have houtcome := outcome_term hhost hgoing tree.term hcode hroom hholds hreads
  unfold Outcome at houtcome
  cases hfault : tree.term.faultsAt? c.machine.bp memory with
  | none =>
    rw [hfault] at houtcome
    obtain ⟨value', hvalue', stack', hsteps, hpushed⟩ := houtcome
    cases hvalue.symm.trans hvalue'
    exact ⟨stack', hsteps.reaches, hpushed⟩
  | some offset =>
    rw [hfault] at houtcome
    cases hvalue.symm.trans houtcome.1

/-- A return saves the value of its tree in the result register, and nothing of it is left on the
stack. -/
theorem reaches_result (hhost : Host.Transparent host) (hgoing : c.machine.finished = false)
    {memory : UInt16 → UInt16} {bound : Nat} (tree : Tree) {index : Nat} {stack : OperandStack}
    {value : UInt16} (hcode : CodeAt c.machine.image.code index (Stmt.return tree).code)
    (hroom : stack.Room tree.height) (hholds : Holds memory bound stack)
    (hreads : ∀ address ∈ tree.reads c.machine.bp memory, address.toNat < bound)
    (hvalue : tree.value? c.machine.bp memory = some value) :
    ∃ stack' : OperandStack, stack.Like stack' ∧ Reaches host (c.moved index stack)
      { c with machine := { c.machine with
        ip := UInt16.ofNat (index + (encode tree.code).length + 1), result := value,
        stack := stack' } } := by
  obtain ⟨htree, hbehind⟩ := hcode.append
  obtain ⟨hsave, -⟩ :=
    CodeAt.append (show CodeAt _ _ ([⟨.saveReg, none⟩] ++ [⟨.pop, none⟩]) from hbehind)
  obtain ⟨stack₁, hrun, hpushed⟩ := reaches_tree hhost hgoing tree htree hroom hholds hreads hvalue
  have hone : stack.Room 1 := hroom.mono (by rw [← Tree.height_term]; exact tree.term.height_pos)
  obtain ⟨hpop, hlike⟩ := hpushed.pop hone
  refine ⟨_, hlike, hrun.trans (Relation.ReflTransGen.single (step_eq_continue.2
    ⟨hgoing, .saveReg, 0, .next, _, _, hsave.fetch rfl, bind_of_ok (pop_moved hpop), rfl, ?_⟩))⟩
  have hcount : Opcode.saveReg.operandCount = 0 := rfl
  simp [Conversation.moved, atPos, UInt16.ofNat_add, hcount]

end Machine

end Parley
