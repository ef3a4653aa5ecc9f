import Parley.Decompile.Function
import Parley.Proofs.Listing.Search
import Parley.Proofs.Structure.Frame
set_option autoImplicit false

/-!
# The functions that are discovered stand one behind the other

A scan finds the instructions that its pattern spells, so a prologue is found behind the epilogue of the function
before, and its own epilogue behind it.  The boundaries are put before them.
-/

namespace Parley

namespace Graph

variable {g : Graph} {site : ItemId} {pattern : List Opcode}

/-! ## Boundaries -/

theorem order_addBoundary (g : Graph) (site : ItemId) (count : Nat) (boundary : Item) :
    (Decompilation.addBoundary g site count boundary).order = placeBefore g.size site g.order :=
  order_markAll _ _

theorem size_addBoundary (g : Graph) (site : ItemId) (count : Nat) (boundary : Item) :
    (Decompilation.addBoundary g site count boundary).size = g.size + 1 :=
  (size_markAll _ _).trans (size_insertBefore g site boundary)

/-- A boundary is put directly before instructions, which are marked. -/
theorem widens_addBoundary (hg : g.Sound) (hsite : g.Place site) {boundary : Item}
    (hpos : boundary.pos = (g.item site).pos) (hstatement : boundary.statement? = none)
    (hopcode : boundary.isOpcodeItem = false) (hbegins : g.Begins site pattern)
    (hcall : Opcode.call ∉ pattern) :
    g.Widens [] (Decompilation.addBoundary g site pattern.length boundary) ∧
      boundary.Kept ((Decompilation.addBoundary g site pattern.length boundary).item g.size) := by
  have hinserted := widens_insertBefore_of_none hg hsite boundary hpos hopcode
    (Item.blockLine?_of_statement? hstatement)
  have hbegins' := hbegins.extends hinserted.extends hg.ordered hinserted.sound.ordered hsite.lt_size
  have hmarked := hbegins'.grows_markOpcodes hinserted.sound hcall
  have hkept := hmarked.kept g.size (by rw [size_insertBefore]; exact Nat.lt_succ_self _)
  rw [item_insertBefore_new] at hkept
  exact ⟨hinserted.silent hmarked.toWidens, hkept⟩

end Graph

namespace Decompilation

variable {d : Decompilation} {entry exit : ItemId}

/-- The first instruction of a function: a start instruction before the prologue, or the prologue. -/
def firstInstruction (g : Graph) (entry : ItemId) : ItemId := (startInstruction? g entry).getD entry

/-- The opcodes that the boundary before a function takes the place of. -/
def openingPattern (g : Graph) (entry : ItemId) : List Opcode :=
  if (startInstruction? g entry).isSome then .start :: prologue else prologue

theorem call_notMem_openingPattern (g : Graph) (entry : ItemId) :
    Opcode.call ∉ openingPattern g entry := by
  unfold openingPattern
  split <;> decide

theorem length_openingPattern (g : Graph) (entry : ItemId) : (openingPattern g entry).length =
    prologue.length + if (startInstruction? g entry).isSome then 1 else 0 := by
  unfold openingPattern
  split <;> rfl

theorem startInstruction?_eq_some {g : Graph} (hg : g.Ordered) (hentry : entry < g.size) {start : ItemId}
    (h : startInstruction? g entry = some start) :
    Adjoins g.order start entry ∧ (g.item start).opcode? = some .start := by
  obtain ⟨hprev, hstart⟩ := Option.filter_eq_some_iff.1 h
  exact ⟨hg.adjoins_prev? hentry hprev, of_decide_eq_true hstart⟩

theorem firstInstruction_spec {g : Graph} (hg : g.Ordered) (hentry : (g.item entry).isOpcodeItem = true)
    (hbegins : g.Begins entry prologue) :
    (firstInstruction g entry = entry ∨ Precedes g.order (firstInstruction g entry) entry) ∧
      (g.item (firstInstruction g entry)).isOpcodeItem = true ∧
      g.Begins (firstInstruction g entry) (openingPattern g entry) := by
  unfold firstInstruction openingPattern
  cases hstart : startInstruction? g entry with
  | none => exact ⟨Or.inl rfl, hentry, hbegins⟩
  | some start =>
    obtain ⟨hadjoins, hopcode⟩ :=
      startInstruction?_eq_some hg (Graph.lt_size_of_isOpcodeItem hentry) hstart
    exact ⟨Or.inr hadjoins.precedes, Item.isOpcodeItem_of_opcode? hopcode,
      hbegins.cons hg hadjoins hopcode⟩

/-- What stands before a prologue and is no start instruction stands before its function. -/
theorem precedes_firstInstruction {g : Graph} (hg : g.Ordered) {id : ItemId}
    (hid : Precedes g.order id entry) (hopcode : (g.item id).opcode? ≠ some .start) :
    Precedes g.order id (firstInstruction g entry) := by
  unfold firstInstruction
  cases hstart : startInstruction? g entry with
  | none => exact hid
  | some start =>
    obtain ⟨hadjoins, hstart⟩ := startInstruction?_eq_some hg (hg.lt_of_mem hid.right_mem) hstart
    refine (hadjoins.eq_or_precedes_left hg.nodup hid).resolve_left ?_
    rintro rfl
    exact hopcode hstart

/-- The listing with a boundary before the first instruction of a function, and with marks on `count`
instructions behind it. -/
def openFunction (g : Graph) (entry : ItemId) (count : Nat) (name : String) (xrefCount : Nat) : Graph :=
  let site := firstInstruction g entry
  let cleared := (g.modify entry Item.withoutLabel).modify site Item.withoutLabel
  addBoundary cleared site count (startBoundary cleared site name xrefCount)

/-- The listing with a boundary before the epilogue of a function. -/
def closeFunction (g : Graph) (exit : ItemId) : Graph :=
  addBoundary (g.modify exit Item.withoutLabel) exit epilogue.length (endBoundary g exit)

/-- A listing has a boundary of this kind, put before a site of another listing. -/
structure Bounded (g : Graph) (site : ItemId) (kind : ItemKind) (g' : Graph) : Prop where
  widens : g.Widens [] g'
  order : g'.order = Graph.placeBefore g.size site g.order
  pos : (g'.item g.size).pos = (g.item site).pos
  kind : (g'.item g.size).kind = kind
  size : g'.size = g.size + 1

/-- A boundary is put before a site when labels have been taken away. -/
theorem bounded_addBoundary {g cleared : Graph} {site : ItemId} {pattern : List Opcode} (boundary : Item)
    (hg : g.Sound) (hcleared : g.Grows [] cleared) (hsize : cleared.size = g.size)
    (horder : cleared.order = g.order) (hitem : (g.item site).isOpcodeItem = true)
    (hbegins : g.Begins site pattern) (hcall : Opcode.call ∉ pattern)
    (hpos : boundary.pos = (g.item site).pos)
    (hkind : boundary.kind = .functionStart ∨ boundary.kind = .functionEnd) :
    Bounded g site boundary.kind (addBoundary cleared site pattern.length boundary) := by
  have hlt := Graph.lt_size_of_isOpcodeItem hitem
  have hplace := Graph.place_of_statement? hlt (Item.statement?_of_isOpcodeItem hitem)
  obtain ⟨hwidens, hkept⟩ := Graph.widens_addBoundary hcleared.sound (hcleared.place hplace)
    (hpos.trans (hcleared.kept site hlt).pos.symm) (by rcases hkind with h | h <;> rw [Item.statement?, h])
    (by rcases hkind with h | h <;> rw [Item.isOpcodeItem, Item.opcodeItem?, h] <;> rfl)
    (hbegins.extends hcleared.extends hg.ordered hcleared.sound.ordered hlt) hcall
  rw [hsize] at hkept
  exact {
    widens := hcleared.toWidens.trans hwidens
    order := by rw [Graph.order_addBoundary, hsize, horder]
    pos := hkept.pos.trans hpos
    kind := by
      rcases hkind with hkind | hkind
      · rw [hkind, hkept.front.2 hkind]
      · rw [hkind, hkept.back.2 hkind]
    size := by rw [Graph.size_addBoundary, hsize] }

theorem bounded_openFunction {g : Graph} (hg : g.Sound) (hentry : (g.item entry).isOpcodeItem = true)
    (hbegins : g.Begins entry prologue) (name : String) (xrefCount : Nat) :
    Bounded g (firstInstruction g entry) .functionStart
      (openFunction g entry (openingPattern g entry).length name xrefCount) := by
  obtain ⟨-, hitem, hsite⟩ := firstInstruction_spec hg.ordered hentry hbegins
  have hfirst : g.Grows [] (g.modify entry Item.withoutLabel) :=
    Graph.grows_modify hg (Item.Kept.withoutLabel _) fun _ => rfl
  have hcleared := hfirst.trans (Graph.grows_modify hfirst.sound
    (Item.Kept.withoutLabel ((g.modify entry Item.withoutLabel).item (firstInstruction g entry))) fun _ => rfl)
  exact bounded_addBoundary (startBoundary _ _ name xrefCount) hg hcleared (by simp) rfl hitem hsite
    (call_notMem_openingPattern g entry) (hcleared.kept _ (Graph.lt_size_of_isOpcodeItem hitem)).pos
    (Or.inl rfl)

theorem bounded_closeFunction {g : Graph} (hg : g.Sound) (hexit : (g.item exit).isOpcodeItem = true)
    (hbegins : g.Begins exit epilogue) : Bounded g exit .functionEnd (closeFunction g exit) := by
  have hcleared : g.Grows [] (g.modify exit Item.withoutLabel) :=
    Graph.grows_modify hg (Item.Kept.withoutLabel _) fun _ => rfl
  exact bounded_addBoundary (endBoundary g exit) hg hcleared (Graph.size_modify g exit _) rfl hexit hbegins
    (by decide) rfl (Or.inr rfl)

/-- A boundary before a function may be one of those before or the new one. -/
theorem Bounded.kind_functionStart {g g' : Graph} {site id : ItemId} {kind : ItemKind}
    (h : Bounded g site kind g') (hid : (g'.item id).kind = .functionStart) :
    (g.item id).kind = .functionStart ∨ (id = g.size ∧ kind = .functionStart) := by
  by_cases hlt : id < g.size
  · exact Or.inl ((h.widens.kept id hlt).front.1 hid)
  · rcases Nat.eq_or_lt_of_le (Nat.le_of_not_lt hlt) with rfl | hlt
    · exact Or.inr ⟨rfl, h.kind.symm.trans hid⟩
    · rw [Graph.item_of_size_le (by rw [h.size]; exact hlt)] at hid
      cases hid

/-- The references that a function takes over: those to its prologue and to a start instruction before it, and
just one if it stands at the beginning. -/
def functionReferences (g : Graph) (entry : ItemId) : Nat :=
  if (g.item entry).pos ≤ 1 then 1
  else (g.item entry).xrefCount + match startInstruction? g entry with
    | some start => (g.item start).xrefCount
    | none => 0

/-- The listing with the boundary before a function that is added. -/
def openedFor (d : Decompilation) (entry : ItemId) : Graph :=
  openFunction d.graph entry (openingPattern d.graph entry).length
    (nameFunction d.options (d.graph.item entry).pos (d.graph.item entry).label) (functionReferences d.graph entry)

theorem bounded_openedFor (hd : d.graph.Sound) (hentry : (d.graph.item entry).isOpcodeItem = true)
    (hbegins : d.graph.Begins entry prologue) :
    Bounded d.graph (firstInstruction d.graph entry) .functionStart (d.openedFor entry) :=
  bounded_openFunction hd hentry hbegins _ _

theorem addFunction_eq (d : Decompilation) (entry exit : ItemId) :
    ∃ info, d.addFunction entry exit =
        { d with graph := closeFunction (d.openedFor entry) exit, functions := d.functions.push info } ∧
      info.frame = ⟨nameFunction d.options (d.graph.item entry).pos (d.graph.item entry).label,
        (d.graph.item (firstInstruction d.graph entry)).pos, (d.graph.item entry).pos, (d.graph.item exit).pos,
        d.graph.size, (d.openedFor entry).size⟩ := by
  unfold openedFor
  rw [length_openingPattern]
  refine ⟨_, rfl, ?_⟩
  simp only [FunctionInfo.frame, Graph.size_modify]
  rfl

/-- A prologue, and an epilogue behind it. -/
structure Delimits (g : Graph) (entry exit : ItemId) : Prop where
  entryItem : (g.item entry).isOpcodeItem = true
  begins : g.Begins entry prologue
  exitItem : (g.item exit).isOpcodeItem = true
  ends : g.Begins exit epilogue
  ordered : Precedes g.order entry exit

/-- The frame of a function that is added. -/
structure Adds (d : Decompilation) (entry exit : ItemId) (d' : Decompilation) (f : Frame) : Prop where
  widens : d.graph.Widens [] d'.graph
  frames : d'.frames = d.frames ++ [f]
  fits : f.Fits d'.graph
  name : f.name = nameFunction d.options (d.graph.item entry).pos (d.graph.item entry).label
  start : f.start = (d.graph.item (firstInstruction d.graph entry)).pos
  stop : f.stop = (d.graph.item exit).pos
  fronts : ∀ id, (d'.graph.item id).kind = .functionStart →
    (d.graph.item id).kind = .functionStart ∨ id = f.startItem

theorem Delimits.first_precedes (h : Delimits d.graph entry exit) (hg : d.graph.Ordered) :
    Precedes d.graph.order (firstInstruction d.graph entry) exit := by
  obtain ⟨hfirst, -, -⟩ := firstInstruction_spec hg h.entryItem h.begins
  rcases hfirst with hfirst | hfirst
  · rw [hfirst]
    exact h.ordered
  · exact hfirst.trans hg.nodup h.ordered

/-- The boundary before the epilogue is put in the listing that has the one before the function. -/
theorem bounded_closed (hd : d.graph.Sound) (h : Delimits d.graph entry exit) :
    Bounded (d.openedFor entry) exit .functionEnd (closeFunction (d.openedFor entry) exit) := by
  have hltExit := Graph.lt_size_of_isOpcodeItem h.exitItem
  have hopened := bounded_openedFor hd h.entryItem h.begins
  exact bounded_closeFunction hopened.widens.sound ((hopened.widens.kept exit hltExit).isOpcodeItem.trans h.exitItem)
    (h.ends.extends hopened.widens.extends hd.ordered hopened.widens.sound.ordered hltExit)

/-- A function that is added stands between its prologue and its epilogue. -/
theorem adds_addFunction (hd : d.graph.Sound) (h : Delimits d.graph entry exit) :
    ∃ f, Adds d entry exit (d.addFunction entry exit) f := by
  have hltExit := Graph.lt_size_of_isOpcodeItem h.exitItem
  obtain ⟨hfirst, hitem, -⟩ := firstInstruction_spec hd.ordered h.entryItem h.begins
  obtain ⟨info, hadded, hframe⟩ := addFunction_eq d entry exit
  have hopened := bounded_openedFor hd h.entryItem h.begins
  have hclosed := bounded_closed hd h
  have hfirstExit := h.first_precedes hd.ordered
  have hstart : Precedes (d.openedFor entry).order d.graph.size (firstInstruction d.graph entry) := by
    rw [hopened.order]
    exact precedes_placeBefore_site hfirstExit.left_mem
  have hstartExit := hstart.trans hopened.widens.sound.ordered.nodup (hopened.widens.precedes hfirstExit)
  have hltStart := hopened.widens.sound.ordered.lt_of_mem hstart.left_mem
  -- The front boundary is an item of the listing in which the back boundary is put, and is kept there.
  have hkept := hclosed.widens.kept d.graph.size hltStart
  rw [hadded]
  refine ⟨info.frame, hopened.widens.trans hclosed.widens, by simp [frames], ?_, ?_, ?_, ?_, ?_⟩ <;>
    rw [hframe]
  · exact {
      front := hkept.front.2 hopened.kind
      back := hclosed.kind
      posFront := hkept.pos.trans hopened.pos
      posBack := hclosed.pos.trans (hopened.widens.kept exit hltExit).pos
      ordered := by
        rw [hclosed.order]
        exact precedes_placeBefore_new hopened.widens.sound.ordered.nodup hstartExit
      behind := by
        refine ⟨exit, ?_, ?_⟩
        · rw [hclosed.order]
          exact precedes_placeBefore_site hstartExit.right_mem
        · exact ((hopened.widens.trans hclosed.widens).kept exit hltExit).isOpcodeItem.trans h.exitItem
      start_le := by
        rcases hfirst with hfirst | hfirst
        · rw [hfirst]
          exact UInt16.le_refl _
        · exact hd.ordered.pos_le hfirst
      entry_lt := hd.spaced entry exit h.ordered h.entryItem h.exitItem }
  · intro id hid
    rcases hclosed.kind_functionStart hid with hid | ⟨-, hkind⟩
    · exact (hopened.kind_functionStart hid).imp_right And.left
    · cases hkind

/-! ## The search -/

/-- The next function begins at the cursor or behind it, and its epilogue stands behind its prologue. -/
theorem nextFunction?_eq_some {g : Graph} (hg : g.Ordered) {cursor : Option ItemId}
    (hcursor : ∀ c ∈ cursor, c < g.size) (h : nextFunction? g cursor = some (entry, exit)) :
    ∃ c, cursor = some c ∧ (entry = c ∨ Precedes g.order c entry) ∧ Delimits g entry exit := by
  obtain ⟨found, hfound, hexit⟩ := Option.bind_eq_some_iff.1 h
  simp only [Option.map_eq_some_iff, Prod.mk.injEq] at hexit
  obtain ⟨_, hexit, rfl, rfl⟩ := hexit
  cases cursor with
  | none => cases hfound
  | some c =>
    obtain ⟨hfrom, hprologue, -⟩ := hg.of_findPattern? (hcursor c rfl) (by decide) hfound
    obtain ⟨hentry, hitem⟩ := (hg.mem_instructionsFrom (hcursor c rfl)).1 hfrom
    cases hnext : g.next? found with
    | none =>
      rw [hnext] at hexit
      cases hexit
    | some next =>
      have hbehind := hg.precedes_next? (Graph.lt_size_of_isOpcodeItem hitem) hnext
      rw [hnext] at hexit
      have hltNext := hg.lt_of_mem hbehind.right_mem
      obtain ⟨hfrom, hepilogue, -⟩ := hg.of_findPattern? hltNext (by decide) hexit
      obtain ⟨hlater, hexitItem⟩ := (hg.mem_instructionsFrom hltNext).1 hfrom
      refine ⟨c, rfl, hentry, hitem, hprologue, hexitItem, hepilogue, ?_⟩
      rcases hlater with rfl | hlater
      · exact hbehind
      · exact hbehind.trans hg.nodup hlater

/-- What is kept whenever the search adds a function holds where the search stops. -/
theorem exists_discoverFrom_of_next {P : Option ItemId → Decompilation → Prop}
    (hnext : ∀ cursor d entry exit, P cursor d → nextFunction? d.graph cursor = some (entry, exit) →
      P (d.graph.next? exit) (d.addFunction entry exit))
    (fuel : Nat) (cursor : Option ItemId) (h : P cursor d) : ∃ cursor', P cursor' (discoverFrom fuel cursor d) := by
  induction fuel generalizing cursor d with
  | zero => exact ⟨cursor, h⟩
  | succ fuel ih =>
    rw [discoverFrom]
    cases hfound : nextFunction? d.graph cursor with
    | none => exact ⟨cursor, h⟩
    | some found => exact ih _ (hnext cursor d found.1 found.2 h hfound)

/-- What the addition of any function keeps is kept by the search. -/
theorem discoverFrom_of_addFunction {P : Decompilation → Prop}
    (hadd : ∀ d entry exit, P d → P (d.addFunction entry exit)) (fuel : Nat) (cursor : Option ItemId) (h : P d) :
    P (discoverFrom fuel cursor d) := by
  obtain ⟨-, h⟩ := exists_discoverFrom_of_next (P := fun _ => P)
    (fun _ d entry exit h _ => hadd d entry exit h) fuel cursor h
  exact h

/-- The boundaries of functions stay theirs when one is added. -/
theorem Adds.all_fits {d' : Decompilation} {f : Frame} (h : Adds d entry exit d' f) (hd : d.graph.Sound)
    (hfits : ∀ f ∈ d.frames, f.Fits d.graph) : ∀ f ∈ d'.frames, f.Fits d'.graph := by
  intro f' hf'
  rw [h.frames] at hf'
  rcases List.mem_append.1 hf' with hf' | hf'
  · exact (hfits f' hf').widens hd h.widens
  · rw [List.mem_singleton.1 hf']
    exact h.fits

/-- A listing in which functions are found has their boundaries. -/
theorem fits_discoverFrom (fuel : Nat) {cursor : Option ItemId} (hd : d.graph.Sound)
    (hfits : ∀ f ∈ d.frames, f.Fits d.graph) (hcursor : ∀ c ∈ cursor, c < d.graph.size) :
    d.graph.Widens [] (discoverFrom fuel cursor d).graph ∧
      ∀ f ∈ (discoverFrom fuel cursor d).frames, f.Fits (discoverFrom fuel cursor d).graph := by
  refine Exists.elim (exists_discoverFrom_of_next (P := fun cursor d' => d.graph.Widens [] d'.graph ∧
      (∀ f ∈ d'.frames, f.Fits d'.graph) ∧ ∀ c ∈ cursor, c < d'.graph.size) ?_ fuel cursor
    ⟨(Graph.Grows.refl hd).toWidens, hfits, hcursor⟩) fun _ h => ⟨h.1, h.2.1⟩
  rintro cursor d' entry exit ⟨hwidens, hfits, hcursor⟩ hnext
  obtain ⟨c, -, -, hdelimits⟩ := nextFunction?_eq_some hwidens.sound.ordered hcursor hnext
  obtain ⟨f, hadds⟩ := adds_addFunction hwidens.sound hdelimits
  exact ⟨hwidens.trans hadds.widens, hadds.all_fits hwidens.sound hfits, fun next hnext => hadds.widens.lt_size
    (hwidens.sound.lt_of_next? (Graph.lt_size_of_isOpcodeItem hdelimits.exitItem) hnext)⟩

/-- The functions of a decompilation stand one behind the other, and it has no boundaries before others. -/
structure Placed (d : Decompilation) : Prop where
  framed : d.graph.Framed d.frames
  fronts : ∀ id, (d.graph.item id).kind = .functionStart → ∃ f ∈ d.frames, id = f.startItem

/-- All functions found so far end with instructions before the cursor. -/
def Passed (d : Decompilation) (cursor : Option ItemId) : Prop :=
  ∀ c ∈ cursor, c < d.graph.size ∧ ∀ f ∈ d.frames, ∃ exit, (d.graph.item exit).opcode? = some .bpToSp ∧
    (d.graph.item exit).pos = f.stop ∧ Precedes d.graph.order exit c

/-- What has been passed at a cursor has been passed behind it. -/
theorem Passed.mono {c c' : ItemId} (h : d.Passed (some c)) (hg : d.graph.Ordered)
    (hlater : c' = c ∨ Precedes d.graph.order c c') : d.Passed (some c') := by
  rcases hlater with rfl | hlater
  · exact h
  · intro _ hsame
    cases hsame
    refine ⟨hg.lt_of_mem hlater.right_mem, fun f hf => ?_⟩
    obtain ⟨last, hopcode, hpos, hlast⟩ := (h c rfl).2 f hf
    exact ⟨last, hopcode, hpos, hlast.trans hg.nodup hlater⟩

section Adds

variable {d' : Decompilation} {f : Frame} (h : Adds d entry exit d' f) (hd : d.graph.Sound)
  (hdelimits : Delimits d.graph entry exit) (hpassed : d.Passed (some entry))

include h hd hdelimits hpassed

/-- The function that is added stands behind those found so far. -/
theorem Placed.add (hplaced : d.Placed) : d'.Placed := by
  refine ⟨?_, fun id hid => ?_⟩ <;> rw [h.frames]
  · refine (hplaced.framed.widens hd h.widens).concat h.fits fun f' hf' => ?_
    obtain ⟨last, hopcode, hpos, hlast⟩ := (hpassed entry rfl).2 f' hf'
    have hfirst := precedes_firstInstruction hd.ordered hlast (by simp [hopcode])
    rw [← hpos, h.start]
    exact hd.spaced _ _ hfirst (Item.isOpcodeItem_of_opcode? hopcode)
      (firstInstruction_spec hd.ordered hdelimits.entryItem hdelimits.begins).2.1
  · rcases h.fronts id hid with hid | rfl
    · obtain ⟨f', hf', rfl⟩ := hplaced.fronts id hid
      exact ⟨f', List.mem_append_left _ hf', rfl⟩
    · exact ⟨f, List.mem_append_right _ List.mem_cons_self, rfl⟩

/-- The next cursor is the item behind the epilogue of the function that is added. -/
theorem passed_next : d'.Passed (d.graph.next? exit) := by
  intro c hc
  have hltExit := Graph.lt_size_of_isOpcodeItem hdelimits.exitItem
  have hexit := h.widens.precedes (hd.ordered.precedes_next? hltExit hc)
  have hnodup := h.widens.sound.ordered.nodup
  refine ⟨h.widens.sound.ordered.lt_of_mem hexit.right_mem, fun f' hf' => ?_⟩
  rw [h.frames] at hf'
  rcases List.mem_append.1 hf' with hf' | hf'
  · obtain ⟨last, hopcode, hpos, hlast⟩ := (hpassed entry rfl).2 f' hf'
    have hkept := h.widens.kept last (hd.ordered.lt_of_mem hlast.left_mem)
    refine ⟨last, hkept.opcode?.trans hopcode, hkept.pos.trans hpos, ?_⟩
    exact (h.widens.precedes (hlast.trans hd.ordered.nodup hdelimits.ordered)).trans hnodup hexit
  · rw [List.mem_singleton.1 hf']
    have hkept := h.widens.kept exit hltExit
    exact ⟨exit, hkept.opcode?.trans (hdelimits.ends.opcode? hd.ordered hdelimits.exitItem),
      hkept.pos.trans h.stop.symm, hexit⟩

end Adds

/-- The functions found from a cursor on stand behind those before it. -/
theorem placed_discoverFrom (fuel : Nat) {cursor : Option ItemId} (hd : d.graph.Sound) (hplaced : d.Placed)
    (hcursor : d.Passed cursor) :
    d.graph.Widens [] (discoverFrom fuel cursor d).graph ∧ (discoverFrom fuel cursor d).Placed := by
  refine Exists.elim (exists_discoverFrom_of_next (P := fun cursor d' =>
      d.graph.Widens [] d'.graph ∧ d'.Placed ∧ d'.Passed cursor) ?_ fuel cursor
    ⟨(Graph.Grows.refl hd).toWidens, hplaced, hcursor⟩) fun _ h => ⟨h.1, h.2.1⟩
  rintro cursor d' entry exit ⟨hwidens, hplaced, hcursor⟩ hnext
  have hd' := hwidens.sound
  obtain ⟨c, rfl, hentry, hdelimits⟩ := nextFunction?_eq_some hd'.ordered (fun c hc => (hcursor c hc).1) hnext
  obtain ⟨f, hadds⟩ := adds_addFunction hd' hdelimits
  have hpassed := hcursor.mono hd'.ordered hentry
  exact ⟨hwidens.trans hadds.widens, Placed.add hadds hd' hdelimits hpassed hplaced,
    passed_next hadds hd' hdelimits hpassed⟩

/-- The functions of a conversation stand one behind the other. -/
theorem placed_discoverFunctions (hd : d.graph.Sound) (hplaced : d.Placed) (hframes : d.frames = []) :
    d.graph.Widens [] d.discoverFunctions.graph ∧ d.discoverFunctions.Placed := by
  refine placed_discoverFrom _ hd hplaced fun c hc => ⟨?_, ?_⟩
  · exact hd.ordered.lt_of_mem (List.mem_of_head? hc)
  · rw [hframes]
    exact fun f hf => absurd hf List.not_mem_nil

/-! ## References to functions -/

theorem advances_dropAllUnreached (hd : d.graph.Sound) (reached : List UInt16) :
    d.Advances [] (d.dropAllUnreached reached) := by
  have hdrop (infos : List FunctionInfo) {d : Decompilation} (hd : d.graph.Sound) :
      d.Advances [] (infos.foldl (dropUnreached reached) d) := by
    induction infos generalizing d with
    | nil => exact Advances.refl hd
    | cons info rest ih =>
      have hfirst : d.Advances [] (dropUnreached reached d info) := by
        unfold dropUnreached
        split
        · exact Advances.refl hd
        · exact ⟨Graph.grows_modify hd (Item.Kept.withLabel _ _ 0) fun _ => rfl, rfl⟩
      exact hfirst.trans (ih hfirst.sound)
  exact hdrop _ hd

end Decompilation

end Parley
