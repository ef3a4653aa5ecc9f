import Parley.Decompile.Jump
import Parley.Proofs.Decompile.Advance
set_option autoImplicit false

/-!
# The jumps that are left write no line of a block

They become returns, continuations and jumps to labels, and labels are written where they lead.
-/

namespace Parley.Pass

open Fallible

variable {d : Decompilation} {id : ItemId}

theorem quiet_addGotoLabel (written : List UInt16) (target : UInt16) (label : String) :
    Quiet (addGotoLabel written target label) d := by
  unfold addGotoLabel
  split
  · exact quiet_pure written
  · refine quiet_get_bind ?_
    dsimp only
    split
    · rename_i site hsite
      refine Quiet.bind (quiet_onGraph fun hd => ?_) fun _ _ _ _ => quiet_pure _
      have hunlike : Graph.Unlike ⟨label ++ ":;", .label label⟩ := Graph.unlike_of_not_isBlock rfl
      exact Graph.grows_addStatement hd (hd.place_of_findPos? hsite) hunlike
    · exact quiet_pure _

theorem quiet_writeJump (func : Nat) (written : List UInt16) (h : d.graph.Site id) (target : UInt16)
    (label : String) : Quiet (writeJump func written id target label) d := by
  refine quiet_get_bind ?_
  dsimp only
  split
  · exact (quiet_replaceByStatement h rfl).bind fun _ _ _ _ => quiet_pure _
  · split
    · exact (quiet_replaceByStatement h rfl).bind fun _ _ _ _ => quiet_pure _
    · exact (quiet_replaceByStatement h rfl).bind fun _ _ _ _ => quiet_addGotoLabel written target label

theorem quiet_writeBranch (func : Nat) (written : List UInt16) (h : d.graph.Site id) (opcode : Opcode)
    (target : UInt16) (label : String) :
    Quiet (writeBranch func written id opcode target label) d := by
  refine quiet_get_bind ?_
  dsimp only
  split
  · exact quiet_throw _
  · rename_i condition hcondition
    have hopen := (List.mem_filter.1 (List.mem_of_head? hcondition)).2
    refine (quiet_markProcessed h).bind fun _ d₁ _ h₁ => ?_
    have hsite := h₁.site (Graph.site_of_isOpenExpression hopen)
    exact (quiet_replaceByStatement hsite rfl).bind fun _ _ _ _ => quiet_addGotoLabel written target label

theorem quiet_writeLeftover (func : Nat) (written : List UInt16) (id : ItemId) :
    Quiet (writeLeftover func written id) d := by
  refine quiet_get_bind ?_
  dsimp only
  split
  · exact quiet_pure written
  · rename_i op hop
    split
    · rename_i opcode target hopcode _
      have hsite (hcall : opcode ≠ .call) : d.graph.Site id := by
        have hopcode : (d.graph.item id).opcode? = some opcode := by
          rw [Item.opcode?, hop, Option.bind_some, hopcode]
        refine Graph.site_of_isOpcodeItem (Item.isOpcodeItem_of_opcode? hopcode) ?_
        simpa [hopcode] using hcall
      split
      · exact quiet_writeJump func written (hsite (by decide)) target _
      · exact quiet_writeJump func written (hsite (by decide)) target _
      · exact quiet_writeBranch func written (hsite (by decide)) _ target _
      · exact quiet_writeBranch func written (hsite (by decide)) _ target _
      · exact quiet_pure written
    · exact quiet_pure written

/-- The jumps that are left in a function write no line of a block. -/
theorem quiet_writeJumps (func : Nat) : Quiet (writeJumps func) d := by
  refine quiet_get_bind ?_
  exact (quiet_foldlM fun id _ written _ _ => quiet_writeLeftover func written id).bind
    fun _ _ _ _ => quiet_pure _

end Parley.Pass
