import Parley.Proofs.Decompile.Phase
import Parley.Proofs.Source.Tree
set_option autoImplicit false

/-!
# When decompiled functions are nested

The lines of blocks in a decompiled conversation are those of whole blocks.  Whether they are nested is
therefore a matter of where they stand: they are when no two blocks cross.  Blocks do cross where a
conditional ends behind the loop that it stands in, because its branch leaves the loop.
-/

namespace Parley

open Fallible Source

/-- A conversation to which phases have led consists of whole blocks. -/
theorem exists_written_runPhases (image : Image) (strings : List String) (options : NamingOptions)
    (phases : List Phase) :
    ∃ blocks, Written (runPhases phases (.ofImage image strings options)).graph.entries blocks := by
  have hwell := Decompilation.well_ofImage image strings options
  have hentries : (Decompilation.ofImage image strings options).graph.entries = [] := by
    refine List.filterMap_eq_nil_iff.2 fun id _ => ?_
    exact congrArg (Option.map _) (Graph.blockLine?_ofCode image.code id)
  obtain ⟨lines, blocks, hwritten, hlines⟩ := (hwell.runPhases phases).lines
  rw [hentries, List.nil_append] at hlines
  exact ⟨blocks, hlines ▸ hwritten⟩

/-- Every line of a block in a decompiled conversation belongs to a block that is written as a whole.  All
blocks are closed and divided by their own lines if and only if the lines of each stand in their order and no
two blocks cross.  By their kinds they are closed in proper nesting as soon as no two blocks of different kinds
cross and no function starts inside of a block. -/
theorem nested_decompile {image : Image} {strings : List String} {options : NamingOptions}
    {d : Decompilation} (h : Pass.decompile (.ofImage image strings options) = .ok () d) :
    ∃ blocks, Written d.graph.entries blocks ∧
      (NestedOwn blocks d.graph.order ↔ (∀ b ∈ blocks, b.Upright d.graph.order) ∧
        ∀ b ∈ blocks, ∀ c ∈ blocks, b ≠ c → b.Apart d.graph.order c) ∧
      ((∀ b ∈ blocks, b.Upright d.graph.order) →
        (∀ b ∈ blocks, ∀ c ∈ blocks, b.kind ≠ c.kind → b.Apart d.graph.order c) →
        (∀ b ∈ blocks, b.kind = .function → ∀ c ∈ blocks, Precedes d.graph.order c.opening b.opening →
          Precedes d.graph.order c.closing b.opening) →
        Nested (d.graph.order.filterMap d.graph.blockRole?)) := by
  obtain ⟨phases, hphases⟩ := Pass.phased_decompile (.ofImage image strings options)
  rw [h] at hphases
  have hd : d = runPhases phases (.ofImage image strings options) := hphases
  obtain ⟨blocks, hwritten⟩ := exists_written_runPhases image strings options phases
  have hsound := ((Decompilation.well_ofImage image strings options).runPhases phases).well.sound
  rw [← hd] at hwritten hsound
  have hlists := hsound.lists hwritten
  exact ⟨blocks, hwritten, hlists.nestedOwn_iff, hlists.nested⟩

/-- A loop with a conditional in it; the branch of the conditional leads over so many words. -/
def branchingLoop (skipped : UInt16) : Image := .ofCode (encode (prologueCode 0 ++
  ([⟨.pushi, some 1⟩, ⟨.beq, some 7⟩, ⟨.pushi, some 1⟩, ⟨.beq, some skipped⟩, ⟨.bra, some 0xfff7⟩] ++
    epilogueCode))).toArray

/-- A branch to the end of the loop makes a conditional in the loop. -/
theorem nested_decompile_branchingLoop :
    ∃ d, Pass.decompile (.ofImage (branchingLoop 1) [] ⟨false, .empty⟩) = .ok () d ∧
      d.graph.blocks.map (·.kind) = [.whileLoop, .ifThen, .function] ∧
      NestedOwn d.graph.blocks d.graph.order := by
  obtain ⟨d, hd, hasked⟩ := decompilesTo_iff.1 (show decompilesTo (branchingLoop 1) (fun d =>
    d.graph.blocks.map (·.kind) = [.whileLoop, .ifThen, .function] ∧
      (∀ b ∈ d.graph.blocks, b.Upright d.graph.order) ∧
      ∀ b ∈ d.graph.blocks, ∀ c ∈ d.graph.blocks, b ≠ c → b.Apart d.graph.order c) = true by
    decide +kernel)
  obtain ⟨hkinds, hplaces⟩ := of_decide_eq_true hasked
  obtain ⟨blocks, hwritten, hnested, -⟩ := nested_decompile hd
  rw [← Graph.blocks_of_written hwritten] at hnested
  exact ⟨d, hd, hkinds, hnested.2 hplaces⟩

/-- A branch behind the loop makes a conditional that the loop ends inside of. -/
theorem not_nested_branchingLoop :
    ∃ d, Pass.decompile (.ofImage (branchingLoop 3) [] ⟨false, .empty⟩) = .ok () d ∧
      d.graph.order.filterMap d.graph.blockRole? = [.opens .function, .opens .whileLoop,
        .opens .ifThen, .closes .whileLoop, .closes .ifThen, .closes .function] ∧
      ¬ Nested (d.graph.order.filterMap d.graph.blockRole?) := by
  obtain ⟨d, hd, hroles⟩ := decompilesTo_iff.1 (show decompilesTo (branchingLoop 3) (fun d =>
    d.graph.order.filterMap d.graph.blockRole? = [.opens .function, .opens .whileLoop,
      .opens .ifThen, .closes .whileLoop, .closes .ifThen, .closes .function]) = true by
    decide +kernel)
  have hroles := of_decide_eq_true hroles
  exact ⟨d, hd, hroles, by rw [hroles]; decide⟩

end Parley
