import Parley.Proofs.Listing.Growth
import Parley.Proofs.Structure.Nesting
import Mathlib.Data.List.Nodup
import Mathlib.Data.List.Pairwise
import Mathlib.Data.List.Perm.Basic
set_option autoImplicit false

/-!
# Blocks in the order of writing

The lines of a block are written one after the other, and only whole blocks are written between them.  So the
blocks can be read off the lines in the order of writing, with a stack of those that have been begun, wherever
the lines stand in the listing.  When all blocks are whole every line belongs to one of them.
-/

namespace Parley

/-- A block whose closing line is not written yet. -/
structure BegunBlock where
  kind : BlockKind
  opening : ItemId
  middle : Option ItemId

/-- The blocks that are written and those that have been begun, the last one first. -/
structure Ledger where
  written : List Block
  begun : List BegunBlock

/-- Take note of a line. -/
def Ledger.note (ledger : Ledger) (line : ItemId × StatementRole) : Ledger :=
  match line.2, ledger.begun with
  | .opens kind, begun => { ledger with begun := ⟨kind, line.1, none⟩ :: begun }
  | .alternative, b :: begun => { ledger with begun := { b with middle := some line.1 } :: begun }
  | .closes _, b :: begun => ⟨ledger.written ++ [⟨b.kind, b.opening, b.middle, line.1⟩], begun⟩
  | _, _ => ledger

/-- The blocks of a listing in the order in which they were closed. -/
def Graph.blocks (g : Graph) : List Block := (g.entries.foldl Ledger.note ⟨[], []⟩).written

/-- The lines of a block with what they do. -/
def Block.lines (b : Block) : List (ItemId × StatementRole) :=
  (b.opening, .opens b.kind) :: (b.middle.toList.map fun id => (id, .alternative)) ++
    [(b.closing, .closes b.kind)]

/-- The lines are those of the blocks, which are written as a whole. -/
inductive Written : List (ItemId × StatementRole) → List Block → Prop where
  | nil : Written [] []
  | append {lines lines' blocks blocks'} : Written lines blocks → Written lines' blocks' →
      Written (lines ++ lines') (blocks ++ blocks')
  | around {lines blocks} (kind : BlockKind) (opening closing : ItemId) : Written lines blocks →
      Written ((opening, .opens kind) :: (lines ++ [(closing, .closes kind)]))
        (blocks ++ [⟨kind, opening, none, closing⟩])
  | halves (opening middle closing : ItemId) :
      Written [(opening, .opens .ifThen), (middle, .alternative), (closing, .closes .ifThen)]
        [⟨.ifThen, opening, some middle, closing⟩]

variable {lines lines' : List (ItemId × StatementRole)} {blocks blocks' : List Block} {b c : Block}

namespace Written

/-- A block with nothing written between its lines. -/
theorem single (kind : BlockKind) (opening closing : ItemId) :
    Written [(opening, .opens kind), (closing, .closes kind)] [⟨kind, opening, none, closing⟩] :=
  Written.nil.around kind opening closing

/-- Whole blocks are written behind the others, and leave those that have been begun. -/
theorem foldl_note (h : Written lines blocks) (ledger : Ledger) :
    lines.foldl Ledger.note ledger = ⟨ledger.written ++ blocks, ledger.begun⟩ := by
  induction h generalizing ledger with
  | nil => simp
  | append _ _ ih ih' => rw [List.foldl_append, ih, ih', List.append_assoc]
  | around kind opening closing _ ih =>
    rw [List.foldl_cons, List.foldl_append, ih]
    simp [Ledger.note]
  | halves opening middle closing => rfl

theorem perm (h : Written lines blocks) : lines.Perm (blocks.flatMap Block.lines) := by
  induction h with
  | nil => exact List.Perm.refl _
  | append _ _ ih ih' =>
    rw [List.flatMap_append]
    exact ih.append ih'
  | @around lines blocks kind opening closing _ ih =>
    rw [List.flatMap_append]
    -- The lines written between those of the block go in front.
    have hfront : ((opening, StatementRole.opens kind) :: (lines ++ [(closing, .closes kind)])).Perm
        (lines ++ [(opening, .opens kind), (closing, .closes kind)]) := List.perm_middle.symm
    exact hfront.trans (ih.append_right _)
  | halves opening middle closing => exact List.Perm.refl _

theorem kind_of_middle (h : Written lines blocks) (hb : b ∈ blocks) (hmiddle : b.middle.isSome) :
    b.kind = .ifThen := by
  induction h with
  | nil => simp at hb
  | append _ _ ih ih' => exact (List.mem_append.1 hb).elim ih ih'
  | around kind opening closing _ ih =>
    rcases List.mem_append.1 hb with hb | hb
    · exact ih hb
    · rw [List.mem_singleton.1 hb] at hmiddle
      cases hmiddle
  | halves opening middle closing => rw [List.mem_singleton.1 hb]

theorem mem_lines (h : Written lines blocks) {line : ItemId × StatementRole} :
    line ∈ lines ↔ ∃ b ∈ blocks, line ∈ b.lines := by
  rw [h.perm.mem_iff, List.mem_flatMap]

/-- No line belongs to two blocks. -/
theorem eq_of_shared (h : Written lines blocks) (hnodup : (lines.map Prod.fst).Nodup) (hb : b ∈ blocks)
    (hc : c ∈ blocks) (id : ItemId) (hidb : id ∈ b.lines.map Prod.fst)
    (hidc : id ∈ c.lines.map Prod.fst) : b = c := by
  rw [(h.perm.map Prod.fst).nodup_iff, List.map_flatMap, List.nodup_flatMap] at hnodup
  by_contra hne
  have : Std.Symm (Function.onFun List.Disjoint fun b : Block => b.lines.map Prod.fst) :=
    ⟨fun _ _ hdisjoint => List.disjoint_symm hdisjoint⟩
  exact hnodup.2.forall hb hc hne hidb hidc

end Written

theorem Graph.blocks_of_written {g : Graph} (h : Written g.entries blocks) : g.blocks = blocks := by
  rw [Graph.blocks, h.foldl_note, List.nil_append]

/-- What has been written stays so. -/
theorem Ledger.subset_foldl_note (lines : List (ItemId × StatementRole)) (ledger : Ledger) :
    ledger.written ⊆ (lines.foldl Ledger.note ledger).written := by
  induction lines generalizing ledger with
  | nil => exact List.Subset.refl _
  | cons line rest ih =>
    refine List.Subset.trans ?_ (ih (ledger.note line))
    unfold Ledger.note
    split
    all_goals first | exact List.Subset.refl _ | exact List.subset_append_left _ _

/-- A line that opens a block and the line written next, which closes one, are those of a block. -/
theorem Graph.mem_blocks_of_adjacent {g : Graph} {opening : ItemId} {kind : BlockKind}
    (hopens : g.blockRole? opening = some (.opens kind)) (hcloses : g.blockRole? (opening + 1) = some (.closes kind)) :
    ⟨kind, opening, none, opening + 1⟩ ∈ g.blocks := by
  have hlt : opening + 1 < g.size := by
    by_contra hge
    rw [blockRole?, item_of_size_le (Nat.le_of_not_lt hge)] at hcloses
    cases hcloses
  obtain ⟨rest, hsize⟩ := Nat.exists_eq_add_of_le hlt
  have hentry (id : ItemId) : ((g.item id).blockLine?.map fun line => (id, line.role)) =
      (g.blockRole? id).map (id, ·) := by
    rw [blockRole?, Option.map_map]
    rfl
  have hentries : g.entries = ((List.range opening).filterMap fun id => (g.blockRole? id).map (id, ·)) ++
      [(opening, .opens kind), (opening + 1, .closes kind)] ++
      ((List.range rest).map (opening + 2 + ·)).filterMap fun id => (g.blockRole? id).map (id, ·) := by
    rw [entries, hsize]
    simp only [hentry, Nat.succ_eq_add_one, List.range_add, List.range_succ, List.filterMap_append]
    simp [hopens, hcloses]
  rw [blocks, hentries, List.foldl_append, List.foldl_append]
  refine Ledger.subset_foldl_note _ _ ?_
  exact List.mem_append_right _ List.mem_cons_self

/-- When all blocks are whole every line of a block that a listing shows is a line of one of them. -/
theorem Graph.Sound.lists {g : Graph} (hg : g.Sound) (h : Written g.entries blocks) :
    Lists g.order g.blockRole? blocks := by
  have hshown {id : ItemId} {role : StatementRole} :
      (id ∈ g.order ∧ g.blockRole? id = some role) ↔ ∃ b ∈ blocks, (id, role) ∈ b.lines := by
    rw [hg.ordered.mem_order, ← mem_entries, h.mem_lines]
  have hnodup := g.nodup_entries
  exact {
    nodup := hg.ordered.nodup
    opens := by
      intro id hid kind hrole
      obtain ⟨b, hb, hline⟩ := hshown.1 ⟨hid, hrole⟩
      refine ⟨b, hb, ?_⟩
      simp only [Block.lines, List.cons_append, List.mem_cons, List.mem_append, List.mem_map,
        Prod.mk.injEq, reduceCtorEq, and_false, exists_false, StatementRole.opens.injEq,
        List.not_mem_nil, or_false] at hline
      exact ⟨hline.1.symm, hline.2.symm⟩
    divides := by
      intro id hid hrole
      obtain ⟨b, hb, hline⟩ := hshown.1 ⟨hid, hrole⟩
      have hmiddle : b.middle = some id := by simpa [Block.lines] using hline
      exact ⟨b, hb, hmiddle, h.kind_of_middle hb (by rw [hmiddle]; rfl)⟩
    closes := by
      intro id hid kind hrole
      obtain ⟨b, hb, hline⟩ := hshown.1 ⟨hid, hrole⟩
      refine ⟨b, hb, ?_⟩
      simp only [Block.lines, List.cons_append, List.mem_cons, List.mem_append, List.mem_map,
        Prod.mk.injEq, reduceCtorEq, and_false, exists_false, StatementRole.closes.injEq, false_or,
        List.not_mem_nil, or_false] at hline
      exact ⟨hline.1.symm, hline.2.symm⟩
    opening := fun b hb => hshown.2 ⟨b, hb, by simp [Block.lines]⟩
    middle := fun b hb id hid => hshown.2 ⟨b, hb, by simp [Block.lines, Option.mem_def.1 hid]⟩
    closing := fun b hb => hshown.2 ⟨b, hb, by simp [Block.lines]⟩
    unique := by
      rintro b hb c hc (hsame | hsame | ⟨hsame, hsome⟩)
      · exact h.eq_of_shared hnodup hb hc b.opening (by simp [Block.lines])
          (by simp [Block.lines, hsame])
      · exact h.eq_of_shared hnodup hb hc b.closing (by simp [Block.lines])
          (by simp [Block.lines, hsame])
      · obtain ⟨middle, hmiddle⟩ := Option.isSome_iff_exists.1 hsome
        exact h.eq_of_shared hnodup hb hc middle (by simp [Block.lines, hmiddle])
          (by simp [Block.lines, ← hsame, hmiddle]) }

end Parley
