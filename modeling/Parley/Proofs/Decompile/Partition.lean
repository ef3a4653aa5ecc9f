import Parley.Proofs.Decompile.Boundary
import Parley.Proofs.Decompile.Census
import Parley.Proofs.Reach.Survey
import Parley.Proofs.Source.Tree
set_option autoImplicit false

/-!
# The functions that are discovered partition the code

Discovery goes through the instructions once.  Each function takes the code from its first instruction to the
end of its epilogue, the next one begins behind it, and between them no prologue is left over that has an
epilogue behind it.  Only the instructions of prologues and epilogues are replaced, each by one boundary, and
the boundary before a function counts what leads to the function.
-/

namespace Parley

/-! ## Where functions stand in the code -/

/-- Where a function stands in the code: its first instruction, the first ones of its prologue and of its
epilogue, and its last one. -/
structure Extent where
  frame : Frame
  first : ItemId
  entry : ItemId
  exit : ItemId
  ret : ItemId

namespace Extent

/-- The instructions that the boundaries of the function take the place of. -/
def replaced (e : Extent) (g : Graph) : List ItemId :=
  ((if e.first = e.entry then [] else [e.first]) ++ (g.instructionsFrom e.entry).take prologue.length) ++
    (g.instructionsFrom e.exit).take epilogue.length

/-- An instruction is one of the function. -/
def Covers (e : Extent) (g : Graph) (id : ItemId) : Prop :=
  (id = e.first ∨ Precedes g.order e.first id) ∧ (id = e.ret ∨ Precedes g.order id e.ret)

/-- The references that the boundary before the function takes over. -/
def references (e : Extent) (g : Graph) : Nat :=
  if (g.item e.entry).pos ≤ 1 then 1
  else (g.item e.entry).xrefCount + if e.first = e.entry then 0 else (g.item e.first).xrefCount

/-- The code of a function: a prologue, perhaps a start instruction directly before it, and an epilogue. -/
structure Stands (e : Extent) (g : Graph) : Prop where
  opens : e.first = e.entry ∨ (Adjoins g.order e.first e.entry ∧ (g.item e.first).opcode? = some .start)
  begins : g.Begins e.entry prologue
  ordered : Precedes g.order e.entry e.exit
  ends : g.Begins e.exit epilogue
  last : (g.instructionsFrom e.exit)[2]? = some e.ret

/-- The boundaries of a function, directly before what they take the place of. -/
structure Listed (e : Extent) (g g' : Graph) : Prop where
  fits : e.frame.Fits g'
  front : Adjoins g'.order e.frame.startItem e.first
  back : Adjoins g'.order e.frame.endItem e.exit
  start : e.frame.start = (g.item e.first).pos
  entry : e.frame.entry = (g.item e.entry).pos
  stop : e.frame.stop = (g.item e.exit).pos

section Code

variable {g : Graph} {e : Extent} {id : ItemId}

theorem Stands.first_spec (h : e.Stands g) : e.first = e.entry ∨ Precedes g.order e.first e.entry :=
  h.opens.imp_right fun h => h.1.precedes

theorem Stands.first_precedes (h : e.Stands g) (hg : g.Ordered) : Precedes g.order e.first e.exit := by
  rcases h.first_spec with hsame | hfirst
  · exact hsame ▸ h.ordered
  · exact hfirst.trans hg.nodup h.ordered

/-- The instructions from an epilogue on. -/
theorem closing {exit ret : ItemId} (hg : g.Ordered) (hexit : (g.item exit).isOpcodeItem = true)
    (hends : g.Begins exit epilogue) (hlast : (g.instructionsFrom exit)[2]? = some ret) :
    ∃ pop more, g.instructionsFrom exit = exit :: pop :: ret :: more ∧
      (g.item pop).opcode? = some .popBp ∧ (g.item ret).opcode? = some .ret := by
  obtain ⟨front, behind, horder, -⟩ := hg.split (Graph.lt_size_of_isOpcodeItem hexit)
  have hfrom := Graph.instructionsFrom_split hg horder
  rw [List.filter_cons, if_pos hexit] at hfrom
  rw [Graph.Begins, hfrom] at hends
  rw [hfrom] at hlast
  generalize behind.filter (fun other => (g.item other).isOpcodeItem) = rest at *
  cases rest with
  | nil => cases hlast
  | cons pop rest =>
    cases rest with
    | nil => cases hlast
    | cons last more =>
      have hsame : last = ret := Option.some.inj hlast
      subst hsame
      simp only [epilogue, List.map_cons, List.map_nil, List.cons_prefix_cons] at hends
      exact ⟨pop, more, hfrom, hends.2.1.symm, hends.2.2.1.symm⟩

variable (hg : g.Ordered) (hcode : ∀ id < g.size, (g.item id).isOpcodeItem = true)

include hg hcode

theorem Stands.exit_precedes_ret (h : e.Stands g) : Precedes g.order e.exit e.ret := by
  obtain ⟨pop, more, hfrom, -⟩ := closing hg (hcode _ (hg.lt_of_mem h.ordered.right_mem)) h.ends h.last
  refine List.Sublist.trans ?_ (g.sublist_instructionsFrom e.exit)
  rw [hfrom]
  exact (List.singleton_sublist.2 (by simp)).cons_cons e.exit

theorem Stands.first_opcode (h : e.Stands g) :
    (g.item e.first).opcode? = some .start ∨ (g.item e.first).opcode? = some .pushBp := by
  rcases h.opens with hsame | ⟨-, hopcode⟩
  · rw [hsame]
    exact Or.inr (h.begins.opcode? hg (hcode _ (hg.lt_of_mem h.ordered.left_mem)))
  · exact Or.inl hopcode

theorem Stands.exit_opcode (h : e.Stands g) : (g.item e.exit).opcode? = some .bpToSp :=
  h.ends.opcode? hg (hcode _ (hg.lt_of_mem h.ordered.right_mem))

/-- Epilogues before a prologue are before the function. -/
theorem Stands.precedes_first {e' : Extent} (h : e.Stands g) (h' : e'.Stands g)
    (hbefore : Precedes g.order e'.exit e.entry) : Precedes g.order e'.exit e.first := by
  rcases h.opens with hsame | ⟨hadjoins, hopcode⟩
  · exact hsame ▸ hbefore
  · refine (hadjoins.eq_or_precedes_left hg.nodup hbefore).resolve_left fun heq => ?_
    rw [← heq, h'.exit_opcode hg hcode] at hopcode
    cases hopcode

/-- What stands behind the beginning of an epilogue and does not belong to it stands behind its end. -/
theorem Stands.ret_precedes (h : e.Stands g) (hid : Precedes g.order e.exit id)
    (hpop : (g.item id).opcode? ≠ some .popBp) (hret : (g.item id).opcode? ≠ some .ret) :
    Precedes g.order e.ret id := by
  have hexit := hg.lt_of_mem h.ordered.right_mem
  obtain ⟨pop, more, hfrom, hpop', hret'⟩ := closing hg (hcode _ hexit) h.ends h.last
  have hmem : id ∈ g.instructionsFrom e.exit :=
    (hg.mem_instructionsFrom hexit).2 ⟨Or.inr hid, hcode id (hg.lt_of_mem hid.right_mem)⟩
  have hsub : (e.ret :: more).Sublist g.order := by
    refine List.Sublist.trans ?_ (g.sublist_instructionsFrom e.exit)
    rw [hfrom]
    exact List.sublist_append_right [e.exit, pop] (e.ret :: more)
  rw [hfrom] at hmem
  simp only [List.mem_cons] at hmem
  rcases hmem with rfl | rfl | rfl | hmore
  · exact absurd hid fun h => h.irrefl hg.nodup
  · exact absurd hpop' hpop
  · exact absurd hret' hret
  · exact ((List.singleton_sublist.2 hmore).cons_cons e.ret).trans hsub

end Code

end Extent

namespace Decompilation

variable {g g' : Graph} {d : Decompilation} {id entry exit : ItemId} {extents : List Extent}

/-! ## Functions found so far -/

/-- Whether an item is a boundary of a function. -/
def isBoundary (g : Graph) (id : ItemId) : Bool :=
  (g.item id).kind = .functionStart ∨ (g.item id).kind = .functionEnd

/-- What has been found in the instructions `front` of the code `g`. -/
structure Found (g : Graph) (front : List ItemId) (extents : List Extent) (d : Decompilation) : Prop where
  widens : g.Widens [] d.graph
  frames : d.frames = extents.map (·.frame)
  stands : ∀ e ∈ extents, e.Stands g
  passed : ∀ e ∈ extents, e.exit ∈ front
  listed : ∀ e ∈ extents, e.Listed g d.graph
  apart : extents.Pairwise fun e e' => Precedes g.order e.ret e'.first
  boundaries : d.graph.order.filter (isBoundary d.graph) =
    extents.flatMap fun e => [e.frame.startItem, e.frame.endItem]
  processed : ∀ id, (d.graph.item id).processed = true ↔ ∃ e ∈ extents, id ∈ e.replaced g
  covered : ∀ id ∈ front, g.Begins id prologue → ∃ e ∈ extents, id = e.entry ∨ e.Covers g id
  references : ∀ e ∈ extents, (d.graph.item e.frame.startItem).xrefCount = e.references g
  counts : ∀ id < g.size, (∀ e ∈ extents, Precedes g.order e.exit id) →
    (d.graph.item id).xrefCount = (g.item id).xrefCount ∧ (d.graph.item id).label = (g.item id).label
  names : ∀ e ∈ extents, e.frame.name = nameFunction d.options (g.item e.entry).pos (g.item e.entry).label

section Step

variable {front passed middle behind : List ItemId}

/-- The code of the function between a prologue and an epilogue. -/
def newExtent (d : Decompilation) (entry exit : ItemId) (f : Frame) (ret : ItemId) : Extent :=
  ⟨f, firstInstruction d.graph entry, entry, exit, ret⟩

theorem stands_newExtent (hg : g.Sound)
    (horder : g.order = front ++ (passed ++ entry :: (middle ++ exit :: behind)))
    (hfound : Found g front extents d) (hdelimits : Delimits d.graph entry exit) (f : Frame) :
    ∃ ret, (newExtent d entry exit f ret).Stands g := by
  have hextends := hfound.widens.extends
  have hg' := hfound.widens.sound.ordered
  have hspan : Precedes g.order entry exit := by
    refine precedes_iff.2 ⟨front ++ passed, middle ++ exit :: behind, by rw [horder, List.append_assoc], ?_⟩
    exact List.mem_append_right _ List.mem_cons_self
  have hentry := hg.ordered.lt_of_mem hspan.left_mem
  have hexit := hg.ordered.lt_of_mem hspan.right_mem
  have hends := (hextends.begins_iff hg.ordered hg' hexit).1 hdelimits.ends
  have hlast : 2 < (g.instructionsFrom exit).length := by
    have hlength := hends.length_le
    rwa [List.length_map, List.length_map] at hlength
  exact ⟨(g.instructionsFrom exit)[2], firstInstruction_of_extends hextends hg.ordered hg' hentry,
    (hextends.begins_iff hg.ordered hg' hentry).1 hdelimits.begins, hspan, hends,
    List.getElem?_eq_getElem hlast⟩

variable {d' : Decompilation} {f : Frame} {ret : ItemId} (hg : g.Sound)
  (hcode : ∀ id < g.size, (g.item id).isOpcodeItem = true)
  (hfound : Found g front extents d) (hadds : Replaces d entry exit d' f)
  (hnew : (newExtent d entry exit f ret).Stands g)
  (hbefore : ∀ e ∈ extents, Precedes g.order e.exit entry)

include hg hcode hfound hnew hbefore

/-- All boundaries found so far stand before the new function. -/
theorem Found.boundary_precedes (hid : id ∈ d.graph.order.filter (isBoundary d.graph)) :
    Precedes d.graph.order id (firstInstruction d.graph entry) := by
  have hnodup := hfound.widens.sound.ordered.nodup
  rw [hfound.boundaries, List.mem_flatMap] at hid
  obtain ⟨e, he, hid⟩ := hid
  have hstands := hfound.stands e he
  have hlisted := hfound.listed e he
  have hexit : Precedes d.graph.order e.exit (firstInstruction d.graph entry) :=
    hfound.widens.precedes (hnew.precedes_first hg.ordered hcode hstands (hbefore e he))
  simp only [List.mem_cons, List.not_mem_nil, or_false] at hid
  rcases hid with rfl | rfl
  · have hfirst := hfound.widens.precedes (hstands.first_precedes hg.ordered)
    exact (hlisted.front.precedes.trans hnodup hfirst).trans hnodup hexit
  · exact hlisted.back.precedes.trans hnodup hexit

include hadds

/-- The boundaries of the new function come behind those found so far. -/
theorem Found.boundaries_add :
    d'.graph.order.filter (isBoundary d'.graph) =
      d.graph.order.filter (isBoundary d.graph) ++ [f.startItem, f.endItem] := by
  have hordered := hfound.widens.sound.ordered
  have hfirstExit : Precedes d.graph.order (firstInstruction d.graph entry) exit :=
    hfound.widens.precedes (hnew.first_precedes hg.ordered)
  have hold : ∀ id ∈ d.graph.order, isBoundary d'.graph id = isBoundary d.graph id := by
    intro id hid
    have hkept := hadds.widens.kept id (hordered.lt_of_mem hid)
    simp only [isBoundary, hkept.front, hkept.back]
  have hfilter : d.graph.order.filter (isBoundary d'.graph) = d.graph.order.filter (isBoundary d.graph) :=
    List.filter_congr hold
  have hlast : ∀ id ∈ d.graph.order, isBoundary d'.graph id = true →
      Precedes d.graph.order id (firstInstruction d.graph entry) := by
    intro id hid hboundary
    refine hfound.boundary_precedes hg hcode hnew hbefore (List.mem_filter.2 ⟨hid, ?_⟩)
    rwa [← hold id hid]
  have hstart : isBoundary d'.graph f.startItem = true := decide_eq_true (Or.inl hadds.fits.front)
  have hend : isBoundary d'.graph f.endItem = true := decide_eq_true (Or.inr hadds.fits.back)
  have hfresh : f.startItem ∉ d.graph.order := by
    rw [hadds.startItem]
    exact fun hmem => hordered.ne_size_of_mem hmem rfl
  have hnodup : (Graph.placeBefore f.startItem (firstInstruction d.graph entry) d.graph.order).Nodup :=
    Graph.nodup_placeBefore hordered.nodup hfresh
  have hsub := Graph.sublist_placeBefore f.startItem (firstInstruction d.graph entry) d.graph.order
  rw [hadds.order, filter_placeBefore hnodup (hsub.subset hfirstExit.right_mem) hend ?_,
    filter_placeBefore hordered.nodup hfirstExit.left_mem hstart hlast, hfilter, List.append_assoc]
  · rfl
  · intro id hid hboundary
    rcases (Graph.mem_placeBefore hfirstExit.left_mem).1 hid with rfl | hid
    · exact (precedes_placeBefore_site hfirstExit.left_mem).trans hnodup (hfirstExit.mono hsub)
    · exact ((hlast id hid hboundary).trans hordered.nodup hfirstExit).mono hsub

/-- The boundaries of the functions stay directly before what they take the place of. -/
theorem Found.listed_add : ∀ e ∈ extents ++ [newExtent d entry exit f ret], e.Listed g d'.graph := by
  have hnodup := hg.ordered.nodup
  have hordered := hfound.widens.sound.ordered
  have hfirstExit := hnew.first_precedes hg.ordered
  have hmem : firstInstruction d.graph entry ∈ d.graph.order :=
    (hfound.widens.precedes hfirstExit).left_mem
  have hexitMem : exit ∈ Graph.placeBefore f.startItem (firstInstruction d.graph entry) d.graph.order :=
    (Graph.sublist_placeBefore _ _ _).subset (hfound.widens.precedes hfirstExit).right_mem
  intro e he
  rcases List.mem_append.1 he with he | he
  · have hstands := hfound.stands e he
    have hlisted := hfound.listed e he
    have hbehind : Precedes g.order e.exit (firstInstruction d.graph entry) :=
      hnew.precedes_first hg.ordered hcode hstands (hbefore e he)
    have hfirst := (hstands.first_precedes hg.ordered).trans hnodup hbehind
    refine ⟨hlisted.fits.widens hfound.widens.sound hadds.widens, ?_, ?_, hlisted.start, hlisted.entry,
      hlisted.stop⟩ <;> rw [hadds.order]
    · exact (hlisted.front.placeBefore (hfirst.ne hnodup).symm).placeBefore
        ((hfirst.trans hnodup hfirstExit).ne hnodup).symm
    · exact (hlisted.back.placeBefore (hbehind.ne hnodup).symm).placeBefore
        ((hbehind.trans hnodup hfirstExit).ne hnodup).symm
  · rw [List.mem_singleton.1 he]
    have hpos {id : ItemId} (hid : id ∈ g.order) : (d.graph.item id).pos = (g.item id).pos :=
      (hfound.widens.kept id (hg.ordered.lt_of_mem hid)).pos
    refine ⟨hadds.fits, ?_, ?_, hadds.start.trans (hpos hfirstExit.left_mem),
      hadds.entryPos.trans (hpos hnew.ordered.left_mem), hadds.stop.trans (hpos hfirstExit.right_mem)⟩
    · change Adjoins d'.graph.order f.startItem (firstInstruction d.graph entry)
      rw [hadds.order]
      exact (adjoins_placeBefore_site hmem).placeBefore (hfirstExit.ne hnodup).symm
    · change Adjoins d'.graph.order f.endItem exit
      rw [hadds.order]
      exact adjoins_placeBefore_site hexitMem

omit hadds in
/-- The new function begins behind the end of those found so far. -/
theorem Found.apart_add : (extents ++ [newExtent d entry exit f ret]).Pairwise fun e e' =>
    Precedes g.order e.ret e'.first := by
  refine List.pairwise_append.2 ⟨hfound.apart, List.pairwise_singleton _ _, fun e he e' he' => ?_⟩
  rw [List.mem_singleton.1 he']
  have hstands := hfound.stands e he
  refine hstands.ret_precedes hg.ordered hcode
    (hnew.precedes_first hg.ordered hcode hstands (hbefore e he)) ?_ ?_ <;>
    rcases hnew.first_opcode hg.ordered hcode with hopcode | hopcode <;> rw [hopcode] <;> decide

omit hcode hbefore in
/-- Only the instructions of prologues and epilogues are replaced. -/
theorem Found.processed_add (id : ItemId) : (d'.graph.item id).processed = true ↔
    ∃ e ∈ extents ++ [newExtent d entry exit f ret], id ∈ e.replaced g := by
  have hreplaced : replacedBy d.graph entry exit = (newExtent d entry exit f ret).replaced g :=
    replacedBy_eq hfound.widens.extends hg.ordered hfound.widens.sound.ordered
      (hg.ordered.lt_of_mem hnew.ordered.left_mem) (hg.ordered.lt_of_mem hnew.ordered.right_mem)
  rw [hadds.processed, hfound.processed, hreplaced]
  constructor
  · rintro (⟨e, he, hid⟩ | hid)
    · exact ⟨e, List.mem_append_left _ he, hid⟩
    · exact ⟨_, List.mem_append_right _ List.mem_cons_self, hid⟩
  · rintro ⟨e, he, hid⟩
    rcases List.mem_append.1 he with he | he
    · exact Or.inl ⟨e, he, hid⟩
    · rw [List.mem_singleton.1 he] at hid
      exact Or.inr hid

omit hcode hbefore in
/-- What leads to instructions behind the epilogues is counted as before, and they have their labels. -/
theorem Found.counts_add (hid : id < g.size)
    (hbehind : ∀ e ∈ extents ++ [newExtent d entry exit f ret], Precedes g.order e.exit id) :
    (d'.graph.item id).xrefCount = (g.item id).xrefCount ∧ (d'.graph.item id).label = (g.item id).label := by
  have hnodup := hg.ordered.nodup
  have hexit : Precedes g.order exit id := hbehind _ (List.mem_append_right _ List.mem_cons_self)
  have hfirst := (hnew.first_precedes hg.ordered).trans hnodup hexit
  have hentry := hnew.ordered.trans hnodup hexit
  obtain ⟨hcount, hlabel⟩ := hadds.others id (Nat.lt_of_lt_of_le hid hfound.widens.size) (hfirst.ne hnodup).symm
    (hentry.ne hnodup).symm (hexit.ne hnodup).symm
  rw [hcount, hlabel]
  exact hfound.counts id hid fun e he => hbehind e (List.mem_append_left _ he)

/-- The boundary before a function counts what leads to its prologue and to a start instruction before it. -/
theorem Found.references_add : ∀ e ∈ extents ++ [newExtent d entry exit f ret],
    (d'.graph.item e.frame.startItem).xrefCount = e.references g := by
  have hordered := hfound.widens.sound.ordered
  have hfirstMem := (hnew.first_precedes hg.ordered).left_mem
  have hlt {id : ItemId} (hid : id ∈ g.order) : id < d.graph.size :=
    hfound.widens.lt_size (hg.ordered.lt_of_mem hid)
  have hinstruction {id : ItemId} (hid : id ∈ g.order) : (d.graph.item id).kind ≠ .functionStart := by
    have hltG := hg.ordered.lt_of_mem hid
    intro hkind
    have hitem := (hfound.widens.kept id hltG).isOpcodeItem.trans (hcode id hltG)
    simp [Item.isOpcodeItem, Item.opcodeItem?, hkind] at hitem
  intro e he
  rcases List.mem_append.1 he with he | he
  · have hfits := (hfound.listed e he).fits
    have hne {id : ItemId} (hid : id ∈ g.order) : e.frame.startItem ≠ id := fun heq =>
      hinstruction hid (heq ▸ hfits.front)
    rw [(hadds.others _ (hordered.lt_of_mem hfits.ordered.left_mem) (hne hfirstMem)
      (hne hnew.ordered.left_mem) (hne hnew.ordered.right_mem)).1]
    exact hfound.references e he
  · rw [List.mem_singleton.1 he]
    obtain ⟨hentry, -⟩ := hfound.counts entry (hg.ordered.lt_of_mem hnew.ordered.left_mem) hbefore
    obtain ⟨hfirst, -⟩ := hfound.counts (firstInstruction d.graph entry) (hg.ordered.lt_of_mem hfirstMem)
      fun e he => hnew.precedes_first hg.ordered hcode (hfound.stands e he) (hbefore e he)
    have hpos := (hfound.widens.kept entry (hg.ordered.lt_of_mem hnew.ordered.left_mem)).pos
    have hentryLt : entry < d.graph.size := hlt hnew.ordered.left_mem
    refine hadds.references.trans ?_
    rw [functionReferences_eq hordered hentryLt, hpos, hentry, hfirst]
    rfl

omit hcode in
/-- A function is named by the position and the label of its prologue. -/
theorem Found.names_add : ∀ e ∈ extents ++ [newExtent d entry exit f ret],
    e.frame.name = nameFunction d'.options (g.item e.entry).pos (g.item e.entry).label := by
  intro e he
  rw [hadds.options]
  rcases List.mem_append.1 he with he | he
  · exact hfound.names e he
  · rw [List.mem_singleton.1 he]
    have hentry := hg.ordered.lt_of_mem hnew.ordered.left_mem
    obtain ⟨-, hlabel⟩ := hfound.counts entry hentry hbefore
    have hname := hadds.name
    rwa [hlabel, (hfound.widens.kept entry hentry).pos] at hname

omit hadds in
/-- A prologue among the instructions gone through is that of a function or lies inside one. -/
theorem Found.covered_add (horder : g.order = front ++ (passed ++ entry :: (middle ++ exit :: behind)))
    (hpassed : ∀ id ∈ passed, ¬ g.Begins id prologue) :
    ∀ id ∈ front ++ (passed ++ entry :: (middle ++ [exit])), g.Begins id prologue →
      ∃ e ∈ extents ++ [newExtent d entry exit f ret], id = e.entry ∨ e.Covers g id := by
  have hnodup := hg.ordered.nodup
  intro id hid hbegins
  simp only [List.mem_append, List.mem_cons, List.not_mem_nil, or_false] at hid
  rcases hid with hid | hid | rfl | hid | rfl
  · obtain ⟨e, he, hcovers⟩ := hfound.covered id hid hbegins
    exact ⟨e, List.mem_append_left _ he, hcovers⟩
  · exact absurd hbegins (hpassed id hid)
  · exact ⟨_, List.mem_append_right _ List.mem_cons_self, Or.inl rfl⟩
  · refine ⟨_, List.mem_append_right _ List.mem_cons_self, Or.inr ⟨Or.inr ?_, Or.inr ?_⟩⟩
    · have hentry : Precedes g.order entry id := precedes_iff.2 ⟨front ++ passed, middle ++ exit :: behind,
        by rw [horder, List.append_assoc], List.mem_append_left _ hid⟩
      rcases hnew.first_spec with hsame | hfirst
      · rw [hsame]
        exact hentry
      · exact hfirst.trans hnodup hentry
    · have hexit : Precedes g.order id exit := by
        obtain ⟨before, after, rfl⟩ := List.append_of_mem hid
        exact precedes_iff.2 ⟨front ++ passed ++ entry :: before, after ++ exit :: behind, by rw [horder]; simp,
          List.mem_append_right _ List.mem_cons_self⟩
      exact hexit.trans hnodup (hnew.exit_precedes_ret hg.ordered hcode)
  · have hexit := hnew.exit_opcode hg.ordered hcode
    have hprologue := hbegins.opcode? hg.ordered (hcode _ (hg.ordered.lt_of_mem hnew.ordered.right_mem))
    exact absurd (hexit.symm.trans hprologue) (by decide)

/-- A function is added to those found so far. -/
theorem Found.add (horder : g.order = front ++ (passed ++ entry :: (middle ++ exit :: behind)))
    (hpassed : ∀ id ∈ passed, ¬ g.Begins id prologue) :
    Found g (front ++ (passed ++ entry :: (middle ++ [exit])))
      (extents ++ [newExtent d entry exit f ret]) d' where
  widens := hfound.widens.trans hadds.widens
  frames := by rw [hadds.frames, hfound.frames, List.map_append]; rfl
  stands := fun e he => by
    rcases List.mem_append.1 he with he | he
    · exact hfound.stands e he
    · exact List.mem_singleton.1 he ▸ hnew
  passed := fun e he => by
    rcases List.mem_append.1 he with he | he
    · exact List.mem_append_left _ (hfound.passed e he)
    · rw [List.mem_singleton.1 he]
      simp [newExtent]
  listed := hfound.listed_add hg hcode hadds hnew hbefore
  apart := hfound.apart_add hg hcode hnew hbefore
  boundaries := by
    rw [hfound.boundaries_add hg hcode hadds hnew hbefore, hfound.boundaries, List.flatMap_append]
    rfl
  processed := hfound.processed_add hg hadds hnew
  covered := hfound.covered_add hg hcode hnew hbefore horder hpassed
  references := hfound.references_add hg hcode hadds hnew hbefore
  counts := fun _ hid hbehind => hfound.counts_add hg hadds hnew hid hbehind
  names := hfound.names_add hg hadds hnew hbefore

end Step

/-- Discovery finds functions, and leaves no prologue over that has an epilogue behind it. -/
theorem found_discoverFrom (hg : g.Sound) (hcode : ∀ id < g.size, (g.item id).isOpcodeItem = true) (fuel : Nat)
    {cursor : Option ItemId} {front rest : List ItemId} (hfound : Found g front extents d)
    (horder : g.order = front ++ rest) (hahead : d.graph.Ahead cursor rest) (hfuel : rest.length ≤ fuel) :
    ∃ front' extents', Found g front' extents' (discoverFrom fuel cursor d) ∧
      ∀ entry exit, Precedes g.order entry exit → g.Begins entry prologue → g.Begins exit epilogue →
        ∃ e ∈ extents', entry = e.entry ∨ e.Covers g entry := by
  induction fuel generalizing cursor front rest extents d with
  | zero =>
    obtain rfl : rest = [] := List.length_eq_zero_iff.1 (Nat.le_zero.1 hfuel)
    rw [List.append_nil] at horder
    exact ⟨front, extents, hfound, fun entry exit hspan hentry _ =>
      hfound.covered entry (horder ▸ hspan.left_mem) hentry⟩
  | succ fuel ih =>
    have hg' := hfound.widens.sound
    have hextends := hfound.widens.extends
    have hbegins {id : ItemId} (hid : id ∈ g.order) {pattern : List Opcode} :
        d.graph.Begins id pattern ↔ g.Begins id pattern :=
      hextends.begins_iff hg.ordered hg'.ordered (hg.ordered.lt_of_mem hid)
    rw [discoverFrom]
    cases hnext : nextFunction? d.graph cursor with
    | none =>
      refine ⟨front, extents, hfound, fun entry exit hspan hentry hexit => ?_⟩
      by_cases hmem : entry ∈ front
      · exact hfound.covered entry hmem hentry
      · have hrest : Precedes rest entry exit := (horder ▸ hspan).of_append hmem
        exact absurd ((hbegins hspan.right_mem).2 hexit)
          (nextFunction?_eq_none hg'.ordered hahead hnext hrest ((hbegins hspan.left_mem).2 hentry))
    | some found =>
      -- The rest of the code is what was passed over, the new function, and what is ahead of the next cursor.
      obtain ⟨entry, exit⟩ := found
      have hcursor : ∀ c ∈ cursor, c < d.graph.size := by
        rintro c rfl
        exact hahead.1
      obtain ⟨-, -, -, hdelimits⟩ := nextFunction?_eq_some hg'.ordered hcursor hnext
      obtain ⟨passed, middle, behind, rfl, hpassed, hbehind⟩ := nextFunction?_split hg'.ordered hahead hnext
      obtain ⟨f, hadds⟩ := replaces_addFunction hg' hdelimits
      obtain ⟨ret, hnew⟩ := stands_newExtent hg horder hfound hdelimits f
      have hbefore : ∀ e ∈ extents, Precedes g.order e.exit entry := by
        intro e he
        obtain ⟨before, after, rfl⟩ := List.append_of_mem (hfound.passed e he)
        exact precedes_iff.2 ⟨before, after ++ (passed ++ entry :: (middle ++ exit :: behind)), by rw [horder]; simp,
          by simp⟩
      have hpassed' : ∀ id ∈ passed, ¬ g.Begins id prologue := fun id hid h =>
        hpassed id hid ((hbegins (horder ▸ by simp [hid])).2 h)
      have horder' : g.order = (front ++ (passed ++ entry :: (middle ++ [exit]))) ++ behind := by
        rw [horder]
        simp
      refine ih (hfound.add hg hcode hadds hnew hbefore horder hpassed') horder'
        (hbehind.extends hadds.widens.extends hg'.ordered hadds.widens.sound.ordered) ?_
      simp only [List.length_append, List.length_cons] at hfuel
      omega

/-! ## The partition of the code -/

/-- Functions partition the code `g`: their extents stand one behind the other, each has its boundaries directly
before its first instruction and its epilogue, and these alternate; only the instructions of prologues and
epilogues, and start instructions before those, are replaced; no prologue with an epilogue behind it is left over;
and the boundary before a function counts what leads to the function. -/
structure Partitioned (g : Graph) (d : Decompilation) (extents : List Extent) : Prop where
  frames : d.frames = extents.map (·.frame)
  stands : ∀ e ∈ extents, e.Stands g
  listed : ∀ e ∈ extents, e.Listed g d.graph
  ranges : ∀ e ∈ extents, (g.item e.first).pos < (g.item e.ret).pos
  apart : extents.Pairwise fun e e' => (g.item e.ret).pos < (g.item e'.first).pos
  boundaries : d.graph.order.filter (isBoundary d.graph) =
    extents.flatMap fun e => [e.frame.startItem, e.frame.endItem]
  processed : ∀ id, (d.graph.item id).processed = true ↔ ∃ e ∈ extents, id ∈ e.replaced g
  complete : ∀ entry exit, Precedes g.order entry exit → g.Begins entry prologue → g.Begins exit epilogue →
    ∃ e ∈ extents, entry = e.entry ∨ e.Covers g entry
  references : ∀ e ∈ extents, 1 < (g.item e.entry).pos →
    (d.graph.item e.frame.startItem).xrefCount = g.order.countP fun id =>
      (g.item id).leadsTo? = some (g.item e.entry).pos ∨ (g.item id).leadsTo? = some (g.item e.first).pos

end Decompilation

namespace Graph

/-- What stands directly behind an instruction stands where it ends. -/
theorem pos_behind {code : CodeWords} {a b start : Nat} (h : Adjoins (ofCode code).order a b)
    (hstart : (starts code)[a]? = some start) :
    ((ofCode code).item b).pos = ((ofCode code).item a).pos + UInt16.ofNat (strideAt code start) := by
  have hnext := next?_ofCode hstart
  rw [(ofCode_ordered code).next?_of_adjoins h] at hnext
  split at hnext
  · obtain ⟨hbehind, hb⟩ := hnext
    obtain rfl := Option.some.inj hb
    rw [item_ofCode hbehind, item_ofCode hstart, pos_itemAt, pos_itemAt, UInt16.ofNat_add]
  · cases hnext

/-- The instruction behind a start instruction stands at the next position. -/
theorem pos_behind_start {code : CodeWords} {a b : ItemId} (h : Adjoins (ofCode code).order a b)
    (hopcode : ((ofCode code).item a).opcode? = some .start) :
    ((ofCode code).item b).pos = ((ofCode code).item a).pos + 1 := by
  obtain ⟨start, hstart⟩ := exists_start_of_lt ((ofCode_ordered code).lt_of_mem h.precedes.left_mem)
  rw [item_ofCode hstart] at hopcode
  have hdecoded : (decodeItem code (UInt16.ofNat start)).1 = some .start := hopcode
  rw [pos_behind h hstart, strideAt, operand_decodeItem hdecoded rfl]
  rfl

end Graph

namespace Decompilation

section Collected

variable {image : Image} {strings : List String} {options : NamingOptions} {d : Decompilation}
  (h : Pass.collectReferences (.ofImage image strings options) = .ok () d)

include h

theorem codeView_collected : d.graph.codeView = (Graph.ofCode image.code).codeView :=
  Pass.graph_of_codeView_eq (Pass.keeps_collectReferences.of_ok h)

theorem bareView_collected : d.bareView = (ofImage image strings options).bareView :=
  blind_bareView.collectReferences.of_ok h

theorem isOpcodeItem_collected (id : ItemId) (hid : id < d.graph.size) :
    (d.graph.item id).isOpcodeItem = true := by
  have hview := codeView_collected h
  rw [Graph.isOpcodeItem_eq_of_code (Graph.code_of_codeView_eq hview id)]
  exact Graph.isOpcodeItem_ofCode (Graph.size_of_codeView_eq hview ▸ hid)

theorem census_collected : d.graph.Census := by
  have hcollect := Pass.collectReferences_ofImage image strings options
  split at hcollect
  · obtain ⟨d', hfault⟩ := hcollect
    rw [h] at hfault
    cases hfault
  · obtain ⟨d', hok, hcensus⟩ := hcollect
    rw [h] at hok
    cases hok
    exact hcensus

/-- The references that a boundary takes over are those to its function. -/
theorem references_collected {e : Extent} (hstands : e.Stands d.graph) (hentry : 1 < (d.graph.item e.entry).pos) :
    e.references d.graph = d.graph.order.countP fun id =>
      (d.graph.item id).leadsTo? = some (d.graph.item e.entry).pos ∨
        (d.graph.item id).leadsTo? = some (d.graph.item e.first).pos := by
  have hcensus := census_collected h
  have hview := codeView_collected h
  have hcode (id : ItemId) := Graph.code_of_codeView_eq hview id
  have hpos (id : ItemId) : (d.graph.item id).pos = ((Graph.ofCode image.code).item id).pos :=
    congrArg Prod.fst (hcode id)
  have hentryNe : (d.graph.item e.entry).pos ≠ 0 := fun hzero => by
    rw [hzero] at hentry
    exact absurd hentry (by decide)
  rw [Extent.references, if_neg (UInt16.not_le.2 hentry),
    hcensus.xrefCount_of_pos_ne_zero hstands.ordered.left_mem hentryNe]
  rcases hstands.opens with hsame | ⟨hadjoins, hopcode⟩
  · rw [if_pos hsame, hsame, Nat.add_zero]
    simp only [or_self]
    rfl
  · have hnext : (d.graph.item e.entry).pos = (d.graph.item e.first).pos + 1 := by
      rw [hpos, hpos]
      refine Graph.pos_behind_start (Graph.order_of_codeView_eq hview ▸ hadjoins) ?_
      rw [← Item.opcode?_of_code (hcode e.first)]
      exact hopcode
    have hfirstNe : (d.graph.item e.first).pos ≠ 0 := fun hzero => by
      rw [hnext, hzero] at hentry
      exact absurd hentry (by decide)
    have hne : (d.graph.item e.entry).pos ≠ (d.graph.item e.first).pos := fun heq => by
      have hsucc := congrArg UInt16.toNat (hnext.symm.trans heq)
      rw [UInt16.toNat_add] at hsucc
      have hlt := (d.graph.item e.first).pos.toNat_lt
      simp only [UInt16.toNat_one] at hsucc
      omega
    have hdiffer : e.first ≠ e.entry := fun heq => hne (by rw [heq])
    rw [if_neg hdiffer, hcensus.xrefCount_of_pos_ne_zero hadjoins.precedes.left_mem hfirstNe,
      Graph.references_add _ hne]

/-- Before discovery nothing has been found. -/
theorem found_collected : Found d.graph [] [] d := by
  have hsound := ((well_ofImage image strings options).congr (bareView_collected h)).well.sound
  have hframes : d.frames = [] := congrArg (·.1) (bareView_collected h)
  have hprocessed (id : ItemId) : (d.graph.item id).processed = false := by
    rw [item_of_bareView Item.processed_bare (bareView_collected h) id]
    exact Graph.forall_item_ofCode (p := fun item => item.processed = false) rfl (fun _ _ => rfl) id
  refine {
    widens := (Graph.Grows.refl hsound).toWidens
    frames := hframes
    stands := fun e he => nomatch he
    passed := fun e he => nomatch he
    listed := fun e he => nomatch he
    apart := List.Pairwise.nil
    boundaries := ?_
    processed := fun id => by simp [hprocessed]
    covered := fun id hid => nomatch hid
    references := fun e he => nomatch he
    counts := fun _ _ _ => ⟨rfl, rfl⟩
    names := fun e he => nomatch he }
  rw [List.flatMap_nil, List.filter_eq_nil_iff]
  intro id hid hboundary
  have hitem := isOpcodeItem_collected h id (hsound.ordered.lt_of_mem hid)
  rcases of_decide_eq_true hboundary with hkind | hkind <;>
    simp [Item.isOpcodeItem, Item.opcodeItem?, hkind] at hitem

/-- All instructions lie ahead of the foremost one. -/
theorem ahead_collected : d.graph.Ahead d.graph.first? d.graph.order := by
  have hsound := ((well_ofImage image strings options).congr (bareView_collected h)).well.sound
  cases horder : d.graph.order with
  | nil =>
    rw [Graph.first?, horder]
    rfl
  | cons first rest =>
    rw [Graph.first?, horder]
    refine ⟨hsound.ordered.lt_of_mem (horder ▸ List.mem_cons_self), ?_⟩
    rw [Graph.instructionsFrom, Graph.startingAt_head horder, List.filter_eq_self]
    exact fun id hid => isOpcodeItem_collected h id (hsound.ordered.lt_of_mem (horder ▸ hid))

end Collected

/-- Discovery partitions the code of every image whose references can be collected. -/
theorem partitioned_discoverFunctions {image : Image} {strings : List String} {options : NamingOptions}
    {d : Decompilation} (h : Pass.collectReferences (.ofImage image strings options) = .ok () d) :
    ∃ extents, Partitioned d.graph d.discoverFunctions extents := by
  have hsound := ((well_ofImage image strings options).congr (bareView_collected h)).well.sound
  have hcode := isOpcodeItem_collected h
  obtain ⟨front, extents, hfound, hcomplete⟩ := found_discoverFrom hsound hcode d.graph.size
    (found_collected h) rfl (ahead_collected h) (Nat.le_of_eq hsound.ordered.length_order)
  have hspaced {a b : ItemId} (hab : Precedes d.graph.order a b) : (d.graph.item a).pos < (d.graph.item b).pos :=
    hsound.spaced a b hab (hcode a (hsound.ordered.lt_of_mem hab.left_mem))
      (hcode b (hsound.ordered.lt_of_mem hab.right_mem))
  exact ⟨extents, {
    frames := hfound.frames
    stands := hfound.stands
    listed := hfound.listed
    ranges := fun e he => hspaced (((hfound.stands e he).first_precedes hsound.ordered).trans hsound.ordered.nodup
      ((hfound.stands e he).exit_precedes_ret hsound.ordered hcode))
    apart := hfound.apart.imp hspaced
    boundaries := hfound.boundaries
    processed := hfound.processed
    complete := hcomplete
    references := fun e he hentry =>
      (hfound.references e he).trans (references_collected h (hfound.stands e he) hentry) }⟩

/-- Two functions: the start calls the prologue of the second one and the start instruction before that. -/
def calledTwice : Image := .ofCode (Source.encode (Source.prologueCode 0 ++
  ([⟨.call, some 13⟩, ⟨.call, some 12⟩] ++ Source.epilogueCode) ++
  (⟨.start, none⟩ :: Source.prologueCode 0 ++ Source.epilogueCode))).toArray

/-- The second function begins at its start instruction, and both calls are counted there. -/
theorem partitioned_discoverFunctions_calledTwice :
    ∃ d extents, Pass.collectReferences (.ofImage calledTwice [] ⟨false, .empty⟩) = .ok () d ∧
      Partitioned d.graph d.discoverFunctions extents ∧
      extents.map (fun e => (e.frame.start, e.frame.entry, e.frame.stop)) = [(0, 0, 9), (12, 13, 18)] ∧
      extents.map (fun e => (d.discoverFunctions.graph.item e.frame.startItem).xrefCount) = [1, 2] := by
  obtain ⟨_, d, hcollect, hasked⟩ := Fallible.succeedsWith_iff.1 (show Fallible.succeedsWith (fun _ d =>
      decide (d.discoverFunctions.frames.map (fun f => (f.start, f.entry, f.stop)) =
        [(0, 0, 9), (12, 13, 18)]) &&
      decide (d.discoverFunctions.frames.map (fun f => (d.discoverFunctions.graph.item f.startItem).xrefCount) =
        [1, 2]))
    (Pass.collectReferences (.ofImage calledTwice [] ⟨false, .empty⟩)) = true by decide +kernel)
  simp only [Bool.and_eq_true, decide_eq_true_eq] at hasked
  obtain ⟨hplaces, hcounts⟩ := hasked
  obtain ⟨extents, hpartitioned⟩ := partitioned_discoverFunctions hcollect
  rw [hpartitioned.frames, List.map_map] at hplaces hcounts
  exact ⟨d, extents, hcollect, hpartitioned, hplaces, hcounts⟩

end Decompilation

end Parley
