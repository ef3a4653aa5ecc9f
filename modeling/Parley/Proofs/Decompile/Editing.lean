import Parley.Decompile.Combination
import Parley.Proofs.Fallible
import Parley.Proofs.Listing.Replacement
set_option autoImplicit false

/-!
# What a combination writes

A combination reads operands, where a number that has been pushed may become the address of a global, and it puts an
expression or a line.  The combination of a call may write a number in the place of a local variable, too.  A relation
between decompilations that holds across all this holds across the combination, whether it succeeds or faults.
-/

namespace Parley

open Fallible

/-- A relation between decompilations that holds across the reading of operands. -/
structure Spans (R : Decompilation → Decompilation → Prop) : Prop where
  refl : ∀ d, R d d
  trans : ∀ d d' d'', R d d' → R d' d'' → R d d''
  address : ∀ d id expression, (d.expression id).immediate?.isSome = true →
    R d (d.onGraph (·.modify id (·.withExpression expression)))

/-- A relation between decompilations that holds across what is put in the place of an operation, too. -/
structure SpansAt (R : Decompilation → Decompilation → Prop) (site : ItemId) : Prop extends Spans R where
  expression : ∀ d expression, R d (d.onGraph (·.putExpression site expression))
  statement : ∀ d text, R d (d.onGraph (·.replaceByStatement site (.plain text)))

/-- A relation between decompilations that holds when local variables that are passed to calls are inlined. -/
def SpansInlining (R : Decompilation → Decompilation → Prop) (func : Nat) : Prop :=
  ∀ d id type, (d.expression id).isAddress = true → beginsWith Pass.localMark (d.expression id).text = true →
    Leads R (Pass.inlineLocal func id type) d

variable {α β : Type} {R : Decompilation → Decompilation → Prop} {d : Decompilation} {func : Nat} {id site : ItemId}
  {pos : UInt16} {operation : Operation} {operands : Operands}

namespace Spans

variable (h : Spans R)

include h

theorem bind {x : Pass α} {f : α → Pass β} (hx : Leads R x d) (hf : ∀ a d', x d = .ok a d' → Leads R (f a) d') :
    Leads R (x >>= f) d := Leads.bind h.trans hx hf

/-- What is refused on a condition writes nothing. -/
theorem guarded {c : Prop} [Decidable c] {before text behind : String} {f : PUnit → Pass β} (hf : Leads R (f ⟨⟩) d) :
    Leads R (if c then Pass.refuse pos before text behind >>= f else f ⟨⟩) d := by
  split
  · exact h.refl d
  · exact hf

theorem addressOf (id : ItemId) : Leads R (Pass.addressOf id) d := by
  refine h.bind (h.refl d) fun value d' hvalue => ?_
  cases hvalue
  dsimp only
  cases hslot : (d.expression id).immediate? with
  | none => exact h.refl d
  | some slot => exact h.bind (h.address d id _ (by rw [hslot]; rfl)) fun _ d' _ => h.refl d'

theorem requireValue (value : Expr) : Leads R (Pass.requireValue pos value) d := by
  unfold Pass.requireValue
  split <;> exact h.refl d

theorem argument (hinline : SpansInlining R func) {type : DataType} : Leads R (Pass.argument func id type) d := by
  refine h.bind (h.refl d) fun value d' hvalue => ?_
  cases hvalue
  have hread (d : Decompilation) : Leads R (Pass.addressOf id >>= fun address => pure address.text) d :=
    h.bind (h.addressOf id) fun _ d' _ => h.refl d'
  dsimp only
  split
  · rename_i hlocal
    rw [Bool.and_eq_true] at hlocal
    exact h.bind (hinline d id type hlocal.1 hlocal.2) fun _ d₁ _ => hread d₁
  · exact hread d

theorem arguments (hinline : SpansInlining R func) (types : List DataType) (ids : List ItemId) :
    Leads R (Pass.arguments func types ids) d := by
  induction ids generalizing types d with
  | nil => exact h.refl d
  | cons id rest ih =>
    refine h.bind (h.argument hinline) fun _ d₁ _ => ?_
    exact h.bind (ih types.tail) fun _ d₂ _ => h.refl d₂

theorem calledName : Leads R (Pass.calledName pos operation) d := by
  unfold Pass.calledName
  split
  · refine h.bind (h.refl d) fun _ d₁ _ => ?_
    split <;> exact h.refl d₁
  · exact h.refl d

end Spans

namespace SpansAt

variable (h : SpansAt R site)

include h

theorem combineBinary (opcode : Opcode) : Leads R (Pass.combineBinary site pos opcode operands) d := by
  refine h.bind (h.refl d) fun second d₁ _ => h.bind (h.refl d₁) fun first d₂ _ => ?_
  refine h.bind (h.requireValue _) fun _ d₃ _ => h.bind (h.requireValue _) fun _ d₄ _ => ?_
  exact h.expression d₄ _

theorem combineUnary (opcode : Opcode) : Leads R (Pass.combineUnary site pos opcode operands) d := by
  refine h.bind (h.refl d) fun value d₁ _ => h.bind (h.requireValue _) fun _ d₂ _ => ?_
  exact h.expression d₂ _

theorem combineLoad : Leads R (Pass.combineLoad site pos operands) d := by
  refine h.bind (h.refl d) fun address d₁ _ => h.bind (h.addressOf _) fun place d₂ _ => ?_
  exact h.guarded (h.expression d₂ _)

theorem combineElement : Leads R (Pass.combineElement site pos operands) d := by
  refine h.bind (h.refl d) fun base d₁ _ => h.bind (h.addressOf _) fun place d₂ _ => ?_
  refine h.bind (h.refl d₂) fun index d₃ _ => ?_
  exact h.guarded (h.guarded (h.expression d₃ _))

theorem combineStore : Leads R (Pass.combineStore id site pos operation operands) d := by
  refine h.bind (h.refl d) fun last d₁ _ => h.bind (h.refl d₁) fun first d₂ _ => ?_
  refine h.bind (h.addressOf _) fun target d₃ _ => h.bind (h.refl d₃) fun value d₄ _ => ?_
  refine h.bind (h.refl d₄) fun _ d₅ _ => ?_
  exact h.guarded (h.guarded (h.statement d₅ _))

theorem combineCall (hinline : SpansInlining R func) :
    Leads R (Pass.combineCall func site pos operation operands) d := by
  refine h.bind h.calledName fun name d₁ _ => h.bind (h.arguments hinline _ _) fun texts d₂ _ => ?_
  dsimp only
  split
  · exact h.expression d₂ _
  · exact h.statement d₂ _

theorem combineReturn : Leads R (Pass.combineReturn site operands) d :=
  h.bind (h.refl d) fun _ d₁ _ => h.statement d₁ _

theorem combineSay : Leads R (Pass.combineSay site pos operands) d := by
  refine h.bind (h.refl d) fun value d₁ _ => ?_
  dsimp only
  split
  · exact h.refl d₁
  · refine h.bind (h.refl d₁) fun _ d₂ _ => ?_
    split
    · exact h.refl d₂
    · exact h.statement d₂ _

/-- A relation holds across a combination if it holds across what this reads and puts, and across what is inlined if it
is the combination of a call. -/
theorem combineKind (hinline : operation.opcode = .call ∨ operation.opcode = .calli → SpansInlining R func) :
    Leads R (Pass.combineKind func id site pos operation operands) d := by
  unfold Pass.combineKind
  split
  · rename_i hopcode
    exact h.combineCall (hinline (Or.inl hopcode))
  · rename_i hopcode
    exact h.combineCall (hinline (Or.inr hopcode))
  · exact h.combineReturn
  · exact h.combineSay
  · exact h.combineLoad
  · exact h.combineElement
  · exact h.combineStore
  · exact h.combineUnary _
  · exact h.combineUnary _
  · exact h.combineBinary _

end SpansAt

end Parley
