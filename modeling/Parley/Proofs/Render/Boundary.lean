import Parley.Proofs.Control.Round
import Parley.Proofs.Decompile.Partition
set_option autoImplicit false

/-!
# The boundaries of functions in a decompiled listing

Decompilation puts no boundary into the listing.  So the boundaries there are those that discovery has put directly
before the first instruction of a function and directly before its epilogue, and no function begins before the
epilogue of the one before it has ended.
-/

namespace Parley

/-- The boundaries in a listing are those of functions.  The first instruction of a function stands behind its front
boundary, and its end boundary is followed by an epilogue, which has been replaced and ends before the next function
begins. -/
structure Graph.Bordered (g : Graph) (frames : List Frame) : Prop where
  fronts : ∀ id ∈ g.order, (g.item id).kind = .functionStart → ∃ f ∈ frames, id = f.startItem
  backs : ∀ id ∈ g.order, (g.item id).kind = .functionEnd → ∃ f ∈ frames, id = f.endItem
  opened : ∀ f ∈ frames, ∀ id ∈ g.order, (g.item id).isOpcodeItem = true → (g.item id).pos = f.start →
    Precedes g.order f.startItem id
  closed : ∀ f ∈ frames, g.Begins f.endItem epilogue
  replaced : ∀ f ∈ frames, ∀ id ∈ (g.instructionsFrom f.endItem).take epilogue.length,
    (g.item id).processed = true
  apart : ∀ f ∈ frames, ∀ f' ∈ frames, f.stop < f'.start →
    ∀ id ∈ (g.instructionsFrom f.endItem).take epilogue.length, (g.item id).pos < f'.start

namespace Graph.Bordered

variable {g g' : Graph} {frames : List Frame}

/-- A listing that is longer, but has no more boundaries, is bordered as before. -/
theorem carry (h : g.Bordered frames) (hg : g.Ordered) (hg' : g'.Ordered) (hlonger : g.Extends g')
    (hends : ∀ f ∈ frames, f.endItem < g.size)
    (hfronts : ∀ id < g'.size, (g'.item id).kind = .functionStart → id < g.size ∧ (g.item id).kind = .functionStart)
    (hbacks : ∀ id < g'.size, (g'.item id).kind = .functionEnd → id < g.size ∧ (g.item id).kind = .functionEnd) :
    g'.Bordered frames := by
  have hfrom {f : Frame} (hf : f ∈ frames) : g'.instructionsFrom f.endItem = g.instructionsFrom f.endItem :=
    hlonger.instructionsFrom hg hg' (hends f hf)
  have hlt {f : Frame} {id : ItemId} (hid : id ∈ (g.instructionsFrom f.endItem).take epilogue.length) :
      id < g.size := lt_of_mem_instructionsFrom (List.mem_of_mem_take hid)
  have hpos {id : ItemId} (hid : id < g.size) : (g'.item id).pos = (g.item id).pos :=
    congrArg Prod.fst (hlonger.code id hid)
  refine ⟨fun id hid hkind => ?_, fun id hid hkind => ?_, fun f hf id hid hitem hstart => ?_, fun f hf => ?_,
    fun f hf id hid => ?_, fun f hf f' hf' hless id hid => ?_⟩
  · obtain ⟨hold, hkind⟩ := hfronts id (hg'.lt_of_mem hid) hkind
    exact h.fronts id ((hg.mem_order id).2 hold) hkind
  · obtain ⟨hold, hkind⟩ := hbacks id (hg'.lt_of_mem hid) hkind
    exact h.backs id ((hg.mem_order id).2 hold) hkind
  · have hold := hlonger.lt_of_isOpcodeItem hitem
    rw [isOpcodeItem_eq_of_code (hlonger.code id hold)] at hitem
    rw [hpos hold] at hstart
    exact (h.opened f hf id ((hg.mem_order id).2 hold) hitem hstart).mono hlonger.order
  · exact (h.closed f hf).extends hlonger hg hg' (hends f hf)
  · rw [hfrom hf] at hid
    exact hlonger.processed id (hlt hid) (h.replaced f hf id hid)
  · rw [hfrom hf] at hid
    rw [hpos (hlt hid)]
    exact h.apart f hf f' hf' hless id hid

end Graph.Bordered

/-- The instructions of an epilogue stand no further than its last one. -/
theorem Extent.Stands.pos_le_ret {g : Graph} {e : Extent} (h : e.Stands g) (hg : g.Sound)
    (hcode : ∀ id < g.size, (g.item id).isOpcodeItem = true) {id : ItemId}
    (hid : id ∈ (g.instructionsFrom e.exit).take epilogue.length) : (g.item id).pos ≤ (g.item e.ret).pos := by
  have hexit := hcode _ (hg.ordered.lt_of_mem h.ordered.right_mem)
  obtain ⟨pop, more, hfrom, -, -⟩ := Extent.closing hg.ordered hexit h.ends h.last
  have hsub := g.sublist_instructionsFrom e.exit
  rw [hfrom] at hid hsub
  have hbefore {id : ItemId} (hmem : id ∈ [e.exit, pop]) : Precedes g.order id e.ret :=
    ((List.singleton_sublist.2 hmem).append (List.singleton_sublist.2 (List.mem_cons_self (l := more)))).trans hsub
  simp only [epilogue, List.length_cons, List.length_nil, List.take_succ_cons, List.take_zero, List.mem_cons,
    List.not_mem_nil, or_false] at hid
  rcases hid with rfl | rfl | rfl
  · exact hg.ordered.pos_le (hbefore (by simp))
  · exact hg.ordered.pos_le (hbefore (by simp))
  · exact UInt16.le_refl _

namespace Decompilation

open Fallible

variable {g : Graph} {d : Decompilation} {front : List ItemId} {extents : List Extent}

namespace Found

variable (h : Found g front extents d)

include h

theorem exists_extent {f : Frame} (hf : f ∈ d.frames) : ∃ e ∈ extents, e.frame = f := by
  rw [h.frames] at hf
  exact List.mem_map.1 hf

theorem frame_mem {e : Extent} (he : e ∈ extents) : e.frame ∈ d.frames :=
  h.frames ▸ List.mem_map_of_mem he

theorem exists_boundary {id : ItemId} (hid : id ∈ d.graph.order) (hkind : isBoundary d.graph id = true) :
    ∃ e ∈ extents, id = e.frame.startItem ∨ id = e.frame.endItem := by
  have hmem := List.mem_filter.2 ⟨hid, hkind⟩
  rw [h.boundaries, List.mem_flatMap] at hmem
  simpa using hmem

theorem eq_startItem {id : ItemId} (hid : id ∈ d.graph.order) (hkind : (d.graph.item id).kind = .functionStart) :
    ∃ f ∈ d.frames, id = f.startItem := by
  obtain ⟨e, he, rfl | rfl⟩ := h.exists_boundary hid (decide_eq_true (Or.inl hkind))
  · exact ⟨e.frame, h.frame_mem he, rfl⟩
  · rw [(h.listed e he).fits.back] at hkind
    cases hkind

theorem eq_endItem {id : ItemId} (hid : id ∈ d.graph.order) (hkind : (d.graph.item id).kind = .functionEnd) :
    ∃ f ∈ d.frames, id = f.endItem := by
  obtain ⟨e, he, rfl | rfl⟩ := h.exists_boundary hid (decide_eq_true (Or.inr hkind))
  · rw [(h.listed e he).fits.front] at hkind
    cases hkind
  · exact ⟨e.frame, h.frame_mem he, rfl⟩

variable (hg : g.Sound)

include hg

/-- The end boundary stands directly before the epilogue, so the same instructions follow. -/
theorem instructionsFrom_endItem {e : Extent} (he : e ∈ extents) :
    d.graph.instructionsFrom e.frame.endItem = g.instructionsFrom e.exit := by
  have hsound := h.widens.sound
  have hlt := hg.ordered.lt_of_mem (h.stands e he).ordered.right_mem
  obtain ⟨before, behind, horder⟩ := (h.listed e he).back
  have horder' : d.graph.order = (before ++ [e.frame.endItem]) ++ e.exit :: behind := by
    rw [horder, List.append_assoc]
    rfl
  have hnone : (d.graph.item e.frame.endItem).isOpcodeItem = false := by
    rw [Item.isOpcodeItem, Item.opcodeItem?, (h.listed e he).fits.back]
    rfl
  rw [← h.widens.extends.instructionsFrom hg.ordered hsound.ordered hlt,
    Graph.instructionsFrom_split hsound.ordered horder, Graph.instructionsFrom_split hsound.ordered horder',
    List.filter_cons, if_neg (by simp [hnone])]

variable (hcode : ∀ id < g.size, (g.item id).isOpcodeItem = true)

include hcode

/-- A function that starts behind the beginning of an epilogue begins behind the end of it. -/
theorem ret_precedes_first {e e' : Extent} (he : e ∈ extents) (he' : e' ∈ extents)
    (hless : e.frame.stop < e'.frame.start) : Precedes g.order e.ret e'.first := by
  have hapart := List.pairwise_iff_getElem.1 h.apart
  obtain ⟨i, hi, rfl⟩ := List.getElem_of_mem he
  obtain ⟨j, hj, rfl⟩ := List.getElem_of_mem he'
  rcases Nat.lt_trichotomy i j with hij | rfl | hji
  · exact hapart i j hi hj hij
  · obtain ⟨-, hlt⟩ := (h.listed _ he).fits.lt_stop extents[i].frame.entersAt_start
    exact absurd (UInt16.lt_trans hlt hless) (UInt16.lt_irrefl _)
  · -- If the other function stood before this one, it would start at a lower position.
    refine absurd hless (UInt16.not_lt.2 ?_)
    rw [(h.listed _ he).stop, (h.listed _ he').start]
    have hbefore := hapart j i hj hi hji
    calc (g.item extents[j].first).pos
      _ ≤ (g.item extents[j].exit).pos := hg.ordered.pos_le ((h.stands _ he').first_precedes hg.ordered)
      _ ≤ (g.item extents[j].ret).pos := hg.ordered.pos_le ((h.stands _ he').exit_precedes_ret hg.ordered hcode)
      _ ≤ (g.item extents[i].exit).pos :=
        hg.ordered.pos_le (hbefore.trans hg.ordered.nodup ((h.stands _ he).first_precedes hg.ordered))

/-- The functions that have been found have their boundaries in the listing. -/
theorem bordered : d.graph.Bordered d.frames := by
  have hcodeAt {id : ItemId} (hid : id < g.size) := h.widens.extends.code id hid
  have hposAt {id : ItemId} (hid : id < g.size) : (d.graph.item id).pos = (g.item id).pos :=
    congrArg Prod.fst (hcodeAt hid)
  refine ⟨fun id => h.eq_startItem, fun id => h.eq_endItem, fun f hf id hid hitem hstart => ?_, fun f hf => ?_,
    fun f hf id hid => ?_, fun f hf f' hf' hless id hid => ?_⟩
  · obtain ⟨e, he, rfl⟩ := h.exists_extent hf
    have hold := h.widens.extends.lt_of_isOpcodeItem hitem
    have hfirst := hg.ordered.lt_of_mem ((h.stands e he).first_precedes hg.ordered).left_mem
    rw [hposAt hold, (h.listed e he).start] at hstart
    obtain rfl := hg.eq_of_pos_eq (hcode id hold) (hcode _ hfirst) hstart
    exact (h.listed e he).front.precedes
  · obtain ⟨e, he, rfl⟩ := h.exists_extent hf
    have hopcodes : ((g.instructionsFrom e.exit).map fun other => (d.graph.item other).opcode?) =
        (g.instructionsFrom e.exit).map fun other => (g.item other).opcode? :=
      List.map_congr_left fun other hother =>
        Item.opcode?_of_code (hcodeAt (Graph.lt_of_mem_instructionsFrom hother))
    rw [Graph.Begins, h.instructionsFrom_endItem hg he, hopcodes]
    exact (h.stands e he).ends
  · obtain ⟨e, he, rfl⟩ := h.exists_extent hf
    rw [h.instructionsFrom_endItem hg he] at hid
    exact (h.processed id).2 ⟨e, he, List.mem_append_right _ hid⟩
  · obtain ⟨e, he, rfl⟩ := h.exists_extent hf
    obtain ⟨e', he', rfl⟩ := h.exists_extent hf'
    rw [h.instructionsFrom_endItem hg he] at hid
    rw [hposAt (Graph.lt_of_mem_instructionsFrom (List.mem_of_mem_take hid))]
    have hbefore := h.ret_precedes_first hg hcode he he' hless
    have hspaced := hg.spaced _ _ hbefore (hcode _ (hg.ordered.lt_of_mem hbefore.left_mem))
      (hcode _ (hg.ordered.lt_of_mem hbefore.right_mem))
    rw [(h.listed e' he').start]
    exact UInt16.lt_of_le_of_lt ((h.stands e he).pos_le_ret hg hcode hid) hspaced

end Found

/-- Decompilations that differ in cross references only have the same boundaries. -/
theorem bordered_congr {d d' : Decompilation} (hd : d.Well) (h : d.graph.Bordered d.frames)
    (hview : d'.bareView = d.bareView) : d'.graph.Bordered d'.frames := by
  have hmore := hd.congr hview
  have hfront := item_of_bareView (f := fun item => item.kind = .functionStart) Item.front_bare hview
  have hback := item_of_bareView (f := fun item => item.kind = .functionEnd) Item.back_bare hview
  have hsize : d'.graph.size = d.graph.size := congrArg (·.2.2.1) hview
  have hframes : d'.frames = d.frames := congrArg (·.1) hview
  rw [hframes]
  exact h.carry hd.sound.ordered hmore.well.sound.ordered hmore.longer
    (fun f hf => hd.sound.ordered.lt_of_mem (hd.fits f hf).ordered.right_mem)
    (fun id hid hkind => ⟨hsize ▸ hid, (hfront id).mp hkind⟩) fun id hid hkind => ⟨hsize ▸ hid, (hback id).mp hkind⟩

/-- Discovery puts the boundaries of functions into the listing. -/
theorem bordered_survey {image : Image} {strings : List String} {options : NamingOptions} {d : Decompilation}
    (h : Pass.collectReferences (.ofImage image strings options) = .ok () d) :
    (survey image strings options).graph.Bordered (survey image strings options).frames := by
  have hsound := ((well_ofImage image strings options).congr (bareView_collected h)).well.sound
  have hcode := isOpcodeItem_collected h
  obtain ⟨front, extents, hfound, -⟩ := found_discoverFrom hsound hcode d.graph.size
    (found_collected h) rfl (ahead_collected h) (Nat.le_of_eq hsound.ordered.length_order)
  have hbordered : d.discoverFunctions.graph.Bordered d.discoverFunctions.frames := hfound.bordered hsound hcode
  have hwell : d.discoverFunctions.Well :=
    ((well_ofImage image strings options).congr (bareView_collected h)).well.discoverFunctions.well
  rw [survey, h]
  exact bordered_congr hwell hbordered (bareView_relabelCalls _)

/-- The boundaries in a decompiled listing are those that discovery has put there. -/
theorem bordered_decompile {image : Image} {strings : List String} {options : NamingOptions} {d : Decompilation}
    (h : Pass.decompile (.ofImage image strings options) = .ok () d) :
    d.graph.Sound ∧ d.graph.Framed d.frames ∧ d.graph.Bordered d.frames := by
  have hfound := surveyed_survey image strings options
  have hbordered : (survey image strings options).graph.Bordered (survey image strings options).frames := by
    obtain ⟨collected, hcollect⟩ := exists_collected h
    exact bordered_survey hcollect
  obtain ⟨-, done, last, reached, hrounds, rfl⟩ := exists_rounds_decompile h
  obtain ⟨-, entries, -, hprogress⟩ := hrounds.exists_progress hfound
  have hdropped := advances_dropAllUnreached hprogress.sound reached
  have hend : (survey image strings options).Progress entries
      (runPhases [.dropping reached, .note .decompiled] last) :=
    hprogress.quiet ⟨hdropped.grows, hdropped.frames⟩
  have hwell := hend.well hfound
  rw [hend.frames]
  refine ⟨hwell.sound, ⟨hend.frames ▸ hwell.fits, hfound.placed.framed.apart⟩, ?_⟩
  obtain ⟨lines, hlines, -⟩ := hend.advances
  have hmarked := Graph.extends_markAll (survey image strings options).graph
    ((survey image strings options).callsOf (entries.map Prod.fst))
  have hkind (id : ItemId) := Graph.markAll_keeps (p := Item.kind) (fun _ => rfl)
    (survey image strings options).graph ((survey image strings options).callsOf (entries.map Prod.fst)) id
  have hsize := Graph.size_markAll (survey image strings options).graph
    ((survey image strings options).callsOf (entries.map Prod.fst))
  refine hbordered.carry hfound.sound.ordered hwell.sound.ordered (hmarked.trans hlines.grows.extends)
    (fun f hf => hfound.sound.ordered.lt_of_mem (hfound.placed.framed.fits f hf).ordered.right_mem)
    (fun id hid hfront => ?_) fun id hid hback => ?_
  · have hold := (hkind id).symm.trans (hlines.grows.kind_functionStart hfront)
    exact ⟨Graph.lt_size_of_kind (by rw [hold]; exact nofun), hold⟩
  · obtain ⟨hlt, hold⟩ := hlines.grows.kind_functionEnd hid hback
    exact ⟨hsize ▸ hlt, (hkind id).symm.trans hold⟩

end Decompilation

end Parley
