import Parley.Proofs.Decompile.Advance
set_option autoImplicit false

/-!
# Where functions stand in a listing

The boundary items of functions stay where they are while the listing grows.  The functions of a conversation
stand one behind the other.
-/

namespace Parley

/-- A listing has the boundaries of a function, in their order, and an instruction behind them. -/
structure Frame.Fits (f : Frame) (g : Graph) : Prop where
  front : (g.item f.startItem).kind = .functionStart
  back : (g.item f.endItem).kind = .functionEnd
  posFront : (g.item f.startItem).pos = f.start
  posBack : (g.item f.endItem).pos = f.stop
  ordered : Precedes g.order f.startItem f.endItem
  behind : ∃ id, Precedes g.order f.endItem id ∧ (g.item id).isOpcodeItem = true
  start_le : f.start ≤ f.entry
  entry_lt : f.entry < f.stop

/-- A listing has the boundaries of functions that stand one behind the other. -/
structure Graph.Framed (g : Graph) (frames : List Frame) : Prop where
  fits : ∀ f ∈ frames, f.Fits g
  apart : frames.Pairwise fun f f' => f.stop < f'.start

/-- A boundary of a function is no statement and no instruction. -/
theorem Graph.site_of_boundary {g : Graph} {id : ItemId} (hid : id < g.size)
    (h : (g.item id).kind = .functionStart ∨ (g.item id).kind = .functionEnd) : g.Site id := by
  rcases h with h | h <;> exact ⟨hid, by rw [Item.statement?, h],
    by simp [Item.isOpcode, Item.opcode?, Item.opcodeItem?, h]⟩

namespace Frame.Fits

variable {g g' : Graph} {lines : List (ItemId × StatementRole)} {f : Frame}

theorem front_site (h : f.Fits g) (hg : g.Sound) : g.Site f.startItem :=
  Graph.site_of_boundary (hg.ordered.lt_of_mem h.ordered.left_mem) (Or.inl h.front)

theorem back_site (h : f.Fits g) (hg : g.Sound) : g.Site f.endItem :=
  Graph.site_of_boundary (hg.ordered.lt_of_mem h.ordered.right_mem) (Or.inr h.back)

theorem widens (h : f.Fits g) (hg : g.Sound) (hwidens : g.Widens lines g') : f.Fits g' := by
  have hfront := hwidens.kept f.startItem (h.front_site hg).lt_size
  have hback := hwidens.kept f.endItem (h.back_site hg).lt_size
  exact {
    front := hfront.front.2 h.front
    back := hback.back.2 h.back
    posFront := hfront.pos.trans h.posFront
    posBack := hback.pos.trans h.posBack
    ordered := hwidens.precedes h.ordered
    behind := h.behind.imp fun id hbehind => ⟨hwidens.precedes hbehind.1,
      (hwidens.kept id (hg.ordered.lt_of_mem hbehind.1.right_mem)).isOpcodeItem.trans hbehind.2⟩
    start_le := h.start_le
    entry_lt := h.entry_lt }

end Frame.Fits

namespace Graph.Framed

variable {g g' : Graph} {lines : List (ItemId × StatementRole)} {f : Frame} {frames : List Frame}

theorem nil : g.Framed [] := ⟨fun _ hf => absurd hf List.not_mem_nil, List.Pairwise.nil⟩

theorem widens (h : g.Framed frames) (hg : g.Sound) (hwidens : g.Widens lines g') : g'.Framed frames :=
  ⟨fun f hf => (h.fits f hf).widens hg hwidens, h.apart⟩

theorem concat (h : g.Framed frames) (hf : f.Fits g)
    (hapart : ∀ f' ∈ frames, f'.stop < f.start) : g.Framed (frames ++ [f]) := by
  refine ⟨fun f' hf' => ?_, List.pairwise_append.2 ⟨h.apart, List.pairwise_singleton _ f, ?_⟩⟩
  · rcases List.mem_append.1 hf' with hf' | hf'
    · exact h.fits f' hf'
    · rw [List.mem_singleton.1 hf']
      exact hf
  · intro f' hf' other hother
    rw [List.mem_singleton.1 hother]
    exact hapart f' hf'

end Graph.Framed

end Parley
