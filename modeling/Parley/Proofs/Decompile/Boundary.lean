import Parley.Proofs.Decompile.Discovery
set_option autoImplicit false

/-!
# What a function that is added changes

The boundaries of a function are put before the instructions that they replace, which are marked; nothing else is
replaced.  The boundary before the function takes over the references to it.  The functions are searched for in
what lies ahead of a cursor, and no prologue there is passed over that has an epilogue behind it.
-/

namespace Parley

namespace Graph

variable {g g' : Graph} {id other site : ItemId} {count : Nat}

/-! ## What a boundary changes -/

theorem instructionsFrom_withoutLabel (g : Graph) (id site : ItemId) :
    (g.modify id Item.withoutLabel).instructionsFrom site = g.instructionsFrom site := by
  rw [instructionsFrom, startingAt, order_modify]
  exact List.filter_congr fun other _ =>
    modify_keeps (p := Item.isOpcodeItem) (f := Item.withoutLabel) (fun _ => rfl) g id other

theorem processed_withoutLabel (g : Graph) (id other : ItemId) :
    ((g.modify id Item.withoutLabel).item other).processed = (g.item other).processed :=
  modify_keeps (p := Item.processed) (f := Item.withoutLabel) (fun _ => rfl) g id other

theorem Ordered.withoutLabel (hg : g.Ordered) (id : ItemId) : (g.modify id Item.withoutLabel).Ordered :=
  hg.modify id fun _ => rfl

theorem instructionsFrom_insertBefore (hg : g.Ordered) (hsite : site < g.size) (item : Item) :
    (g.insertBefore site item).instructionsFrom site = g.instructionsFrom site := by
  obtain ⟨front, behind, horder, hfront, -⟩ := hg.split hsite
  have hplaced : (g.insertBefore site item).order = (front ++ [g.size]) ++ site :: behind := by
    rw [order_insertBefore, horder, placeBefore_split hfront, List.append_assoc]
    rfl
  have hfront' : site ∉ front ++ [g.size] := by
    rw [List.mem_append, not_or, List.mem_singleton]
    exact ⟨hfront, Nat.ne_of_lt hsite⟩
  rw [instructionsFrom, startingAt_split hplaced hfront', instructionsFrom, startingAt_split horder hfront]
  refine List.filter_congr fun other hother => ?_
  have hmem : other ∈ g.order := horder ▸ List.mem_append_right front hother
  rw [item_insertBefore_of_ne (hg.ne_size_of_mem hmem)]

/-- A boundary is put before instructions, and of the others nothing changes but the marks on those. -/
theorem item_addBoundary (hg : g.Ordered) (hsite : site < g.size) (boundary : Item) (id : ItemId) :
    (Decompilation.addBoundary g site count boundary).item id =
      if id ∈ (g.instructionsFrom site).take count then (g.item id).markProcessed
      else (g.insertBefore site boundary).item id := by
  have hmarks : Decompilation.addBoundary g site count boundary =
      (g.insertBefore site boundary).modifyAll ((g.instructionsFrom site).take count) Item.markProcessed := by
    rw [← instructionsFrom_insertBefore hg hsite boundary]
    rfl
  rw [hmarks, item_markAll]
  by_cases hmem : id ∈ (g.instructionsFrom site).take count
  · have hlt : id < g.size := lt_of_mem_instructionsFrom (List.mem_of_mem_take hmem)
    rw [if_pos ⟨hmem, by rw [size_insertBefore]; exact Nat.lt_succ_of_lt hlt⟩, if_pos hmem,
      item_insertBefore_of_ne (Nat.ne_of_lt hlt)]
  · rw [if_neg (fun h => hmem h.1), if_neg hmem]

/-- What is replaced by a boundary. -/
theorem processed_addBoundary (hg : g.Ordered) (hsite : site < g.size) {boundary : Item}
    (hboundary : boundary.processed = false) (id : ItemId) :
    ((Decompilation.addBoundary g site count boundary).item id).processed = true ↔
      (g.item id).processed = true ∨ id ∈ (g.instructionsFrom site).take count := by
  rw [item_addBoundary hg hsite]
  split
  · rename_i hmem
    exact iff_of_true rfl (Or.inr hmem)
  · rename_i hmem
    by_cases hid : id = g.size
    · have hnone : (g.item id).processed = false := by
        rw [item_of_size_le (Nat.le_of_eq hid.symm)]
        rfl
      rw [hid, item_insertBefore_new, hboundary, ← hid, hnone]
      simp [hmem]
    · rw [item_insertBefore_of_ne hid]
      simp [hmem]

/-- Besides its marks a boundary is a new item. -/
theorem addBoundary_keeps {α : Type} {p : Item → α} (hp : ∀ item : Item, p item.markProcessed = p item)
    (g : Graph) (site : ItemId) (count : Nat) (boundary : Item) (id : ItemId) :
    p ((Decompilation.addBoundary g site count boundary).item id) = p ((g.insertBefore site boundary).item id) :=
  markAll_keeps hp _ _ id

end Graph

namespace Decompilation

variable {g g' : Graph} {d : Decompilation} {id entry exit : ItemId}

/-- The instructions of a prologue, with a start instruction before it, and of an epilogue. -/
def replacedBy (g : Graph) (entry exit : ItemId) : List ItemId :=
  (g.instructionsFrom (firstInstruction g entry)).take (openingPattern g entry).length ++
    (g.instructionsFrom exit).take epilogue.length

/-- The first instruction of a function is found in the code. -/
theorem firstInstruction_of_extends (h : g.Extends g') (hg : g.Ordered) (hg' : g'.Ordered)
    (hentry : entry < g.size) :
    firstInstruction g' entry = entry ∨ (Adjoins g.order (firstInstruction g' entry) entry ∧
      (g.item (firstInstruction g' entry)).opcode? = some .start) := by
  unfold firstInstruction
  cases hstart : startInstruction? g' entry with
  | none => exact Or.inl rfl
  | some start =>
    obtain ⟨hadjoins, hopcode⟩ := startInstruction?_eq_some hg' (Nat.lt_of_lt_of_le hentry h.size) hstart
    have hlt : start < g.size := by
      by_contra hge
      have hitem := Item.isOpcodeItem_of_opcode? hopcode
      rw [h.fresh start (Nat.le_of_not_lt hge)] at hitem
      cases hitem
    exact Or.inr ⟨h.adjoins hg hg' hlt hentry hadjoins,
      (Item.opcode?_of_code (h.code start hlt)).symm.trans hopcode⟩

/-- Whether a start instruction stands before a prologue shows in what its function begins with. -/
theorem startInstruction?_eq_none_iff {g : Graph} (hg : g.Ordered) (hentry : entry < g.size) :
    startInstruction? g entry = none ↔ firstInstruction g entry = entry := by
  unfold firstInstruction
  cases hstart : startInstruction? g entry with
  | none => exact iff_of_true rfl rfl
  | some start =>
    obtain ⟨hadjoins, -⟩ := startInstruction?_eq_some hg hentry hstart
    exact iff_of_false (fun h => nomatch h) (hadjoins.precedes.ne hg.nodup)

theorem functionReferences_eq {g : Graph} (hg : g.Ordered) (hentry : entry < g.size) :
    functionReferences g entry = if (g.item entry).pos ≤ 1 then 1
      else (g.item entry).xrefCount + if firstInstruction g entry = entry then 0
        else (g.item (firstInstruction g entry)).xrefCount := by
  have hnone := startInstruction?_eq_none_iff hg hentry
  unfold functionReferences
  cases hstart : startInstruction? g entry with
  | none => rw [if_pos (hnone.1 hstart)]
  | some start =>
    have hfirst : firstInstruction g entry = start := by rw [firstInstruction, hstart]; rfl
    have hne : firstInstruction g entry ≠ entry := fun h => by
      rw [hnone.2 h] at hstart
      cases hstart
    rw [if_neg hne, hfirst]

/-- What a function takes the place of is found in the code. -/
theorem replacedBy_eq (h : g.Extends g') (hg : g.Ordered) (hg' : g'.Ordered) (hentry : entry < g.size)
    (hexit : exit < g.size) :
    replacedBy g' entry exit =
      ((if firstInstruction g' entry = entry then [] else [firstInstruction g' entry]) ++
        (g.instructionsFrom entry).take prologue.length) ++
        (g.instructionsFrom exit).take epilogue.length := by
  have hlt := Nat.lt_of_lt_of_le hentry h.size
  have hnone := startInstruction?_eq_none_iff hg' hlt
  rw [replacedBy, h.instructionsFrom hg hg' hexit, length_openingPattern]
  congr 1
  cases hstart : startInstruction? g' entry with
  | none =>
    rw [hnone.1 hstart, if_pos rfl, h.instructionsFrom hg hg' hentry]
    rfl
  | some start =>
    have hne : firstInstruction g' entry ≠ entry := fun h => by
      rw [hnone.2 h] at hstart
      cases hstart
    obtain ⟨hadjoins, hopcode⟩ := (firstInstruction_of_extends h hg hg' hentry).resolve_left hne
    rw [if_neg hne, h.instructionsFrom hg hg' (hg.lt_of_mem hadjoins.precedes.left_mem),
      Graph.instructionsFrom_of_adjoins hg hadjoins (Item.isOpcodeItem_of_opcode? hopcode)]
    rfl

theorem processed_openFunction (hg : g.Ordered) (hsite : firstInstruction g entry < g.size) (count : Nat)
    (name : String) (xrefCount : Nat) (id : ItemId) :
    ((openFunction g entry count name xrefCount).item id).processed = true ↔
      (g.item id).processed = true ∨ id ∈ (g.instructionsFrom (firstInstruction g entry)).take count := by
  refine (Graph.processed_addBoundary ((hg.withoutLabel entry).withoutLabel _) (by simpa using hsite) rfl id).trans ?_
  rw [Graph.instructionsFrom_withoutLabel, Graph.instructionsFrom_withoutLabel, Graph.processed_withoutLabel,
    Graph.processed_withoutLabel]

theorem processed_closeFunction (hg : g.Ordered) (hexit : exit < g.size) (id : ItemId) :
    ((closeFunction g exit).item id).processed = true ↔
      (g.item id).processed = true ∨ id ∈ (g.instructionsFrom exit).take epilogue.length := by
  refine (Graph.processed_addBoundary (hg.withoutLabel exit) (by simpa using hexit) rfl id).trans ?_
  rw [Graph.instructionsFrom_withoutLabel, Graph.processed_withoutLabel]

/-- Where no boundary is put nothing changes but the marks. -/
theorem openFunction_keeps {α : Type} {p : Item → α} (hp : ∀ item : Item, p item.markProcessed = p item)
    (count : Nat) (name : String) (xrefCount : Nat) (hid : id < g.size) (hfirst : id ≠ firstInstruction g entry)
    (hentry : id ≠ entry) :
    p ((openFunction g entry count name xrefCount).item id) = p (g.item id) := by
  refine (Graph.addBoundary_keeps hp _ _ _ _ id).trans ?_
  rw [Graph.item_insertBefore_of_ne (by simpa using Nat.ne_of_lt hid), Graph.item_modify_of_ne hfirst,
    Graph.item_modify_of_ne hentry]

theorem closeFunction_keeps {α : Type} {p : Item → α} (hp : ∀ item : Item, p item.markProcessed = p item)
    (hid : id < g.size) (hne : id ≠ exit) : p ((closeFunction g exit).item id) = p (g.item id) := by
  refine (Graph.addBoundary_keeps hp _ _ _ _ id).trans ?_
  rw [Graph.item_insertBefore_of_ne (by simpa using Nat.ne_of_lt hid), Graph.item_modify_of_ne hne]

/-- The boundary before a function counts the references that it takes over. -/
theorem xrefCount_openFunction (g : Graph) (entry : ItemId) (count : Nat) (name : String) (xrefCount : Nat) :
    ((openFunction g entry count name xrefCount).item g.size).xrefCount = xrefCount := by
  have hcleared : ((g.modify entry Item.withoutLabel).modify (firstInstruction g entry)
      Item.withoutLabel).size = g.size := by simp
  refine (Graph.addBoundary_keeps (p := Item.xrefCount) (fun _ => rfl) _ _ _ _ g.size).trans ?_
  rw [← hcleared, Graph.item_insertBefore_new]
  rfl

/-- What changes when a function is added: its boundaries are put before the instructions that they replace, and
the one before it takes over their references. -/
structure Replaces (d : Decompilation) (entry exit : ItemId) (d' : Decompilation) (f : Frame) : Prop
    extends Adds d entry exit d' f where
  entryPos : f.entry = (d.graph.item entry).pos
  startItem : f.startItem = d.graph.size
  endItem : f.endItem = d.graph.size + 1
  size : d'.graph.size = d.graph.size + 2
  order : d'.graph.order = Graph.placeBefore f.endItem exit
    (Graph.placeBefore f.startItem (firstInstruction d.graph entry) d.graph.order)
  processed : ∀ id, (d'.graph.item id).processed = true ↔
    (d.graph.item id).processed = true ∨ id ∈ replacedBy d.graph entry exit
  references : (d'.graph.item f.startItem).xrefCount = functionReferences d.graph entry
  others : ∀ id < d.graph.size, id ≠ firstInstruction d.graph entry → id ≠ entry → id ≠ exit →
    (d'.graph.item id).xrefCount = (d.graph.item id).xrefCount ∧ (d'.graph.item id).label = (d.graph.item id).label
  options : d'.options = d.options

theorem replaces_addFunction (hd : d.graph.Sound) (h : Delimits d.graph entry exit) :
    ∃ f, Replaces d entry exit (d.addFunction entry exit) f := by
  obtain ⟨f, hadds⟩ := adds_addFunction hd h
  obtain ⟨-, hitem, -⟩ := firstInstruction_spec hd.ordered h.entryItem h.begins
  have hltFirst := Graph.lt_size_of_isOpcodeItem hitem
  have hltExit := Graph.lt_size_of_isOpcodeItem h.exitItem
  obtain ⟨info, hadded, hframe⟩ := addFunction_eq d entry exit
  have hopened := bounded_openedFor hd h.entryItem h.begins
  have hclosed := bounded_closed hd h
  have hopenedSound := hopened.widens.sound
  have hltExit' : exit < (d.openedFor entry).size := hopened.widens.lt_size hltExit
  -- The frame that was added is the one of the new function.
  have hsame : f = info.frame := by
    have hframes := hadds.frames
    rw [hadded] at hframes
    simpa [frames] using hframes.symm
  have hstartItem : f.startItem = d.graph.size := by rw [hsame, hframe]
  have hendItem : f.endItem = (d.openedFor entry).size := by rw [hsame, hframe]
  have hltStart : d.graph.size < (d.openedFor entry).size := by
    rw [hopened.size]
    exact Nat.lt_succ_self _
  refine ⟨f, hadds, ?_, hstartItem, hendItem.trans hopened.size, ?_, ?_, fun id => ?_, ?_,
    fun id hid hfirst hentry hne => ?_, ?_⟩
  · rw [hsame, hframe]
  · rw [hadded, hclosed.size, hopened.size]
  · rw [hadded, hclosed.order, hopened.order, hstartItem, hendItem]
  · rw [hadded, processed_closeFunction hopenedSound.ordered hltExit', openedFor,
      processed_openFunction hd.ordered hltFirst, ← openedFor, replacedBy, List.mem_append,
      hopened.widens.extends.instructionsFrom hd.ordered hopenedSound.ordered hltExit, or_assoc]
  · rw [hadded, hstartItem, closeFunction_keeps (p := Item.xrefCount) (fun _ => rfl) hltStart
      (Nat.ne_of_gt hltExit), openedFor, xrefCount_openFunction]
  · rw [hadded]
    have hclosed := closeFunction_keeps (p := fun item => (item.xrefCount, item.label)) (fun _ => rfl)
      (hopened.widens.lt_size hid) hne
    exact Prod.mk.inj (hclosed.trans (openFunction_keeps (p := fun item => (item.xrefCount, item.label))
      (fun _ => rfl) _ _ _ hid hfirst hentry))
  · rw [hadded]

/-! ## The search -/

/-- If no function is found, no prologue ahead has an epilogue behind it. -/
theorem nextFunction?_eq_none {cursor : Option ItemId} {rest : List ItemId} (hg : g.Ordered)
    (hahead : g.Ahead cursor rest) (h : nextFunction? g cursor = none)
    (hspan : Precedes rest entry exit) (hentry : g.Begins entry prologue) : ¬ g.Begins exit epilogue := by
  intro hexit
  have hfound : g.findPattern? cursor none prologue = rest.find? fun id => g.Begins id prologue :=
    hahead.findPattern? hg (by decide)
  rw [nextFunction?, Option.bind_eq_none_iff] at h
  cases hfind : rest.find? fun id => g.Begins id prologue with
  | none => exact List.find?_eq_none.1 hfind entry hspan.left_mem (decide_eq_true hentry)
  | some found =>
    obtain ⟨-, passed, behind, rfl, hpassed⟩ := List.find?_eq_some_iff_append.1 hfind
    have hnone := h found (hfound.trans hfind)
    rw [Option.map_eq_none_iff] at hnone
    have hbehind : g.findPattern? (g.next? found) none epilogue = behind.find? fun id => g.Begins id epilogue :=
      (hahead.next hg).findPattern? hg (by decide)
    refine List.find?_eq_none.1 (hbehind.symm.trans hnone) exit ?_ (decide_eq_true hexit)
    have hnot : entry ∉ passed := fun hmem => by
      have hpass := hpassed entry hmem
      rw [decide_eq_true hentry] at hpass
      cases hpass
    exact List.singleton_sublist.1 (List.Sublist.tail (hspan.of_append hnot))

/-- The next function: no prologue ahead stands before its own, and the cursor is put behind its epilogue. -/
theorem nextFunction?_split {cursor : Option ItemId} {rest : List ItemId} (hg : g.Ordered)
    (hahead : g.Ahead cursor rest) (h : nextFunction? g cursor = some (entry, exit)) :
    ∃ passed middle behind, rest = passed ++ entry :: (middle ++ exit :: behind) ∧
      (∀ id ∈ passed, ¬ g.Begins id prologue) ∧ g.Ahead (g.next? exit) behind := by
  have hfound : g.findPattern? cursor none prologue = rest.find? fun id => g.Begins id prologue :=
    hahead.findPattern? hg (by decide)
  obtain ⟨found, hfind, hexit⟩ := Option.bind_eq_some_iff.1 h
  simp only [Option.map_eq_some_iff, Prod.mk.injEq] at hexit
  obtain ⟨_, hexit, rfl, rfl⟩ := hexit
  obtain ⟨-, passed, after, rfl, hpassed⟩ := List.find?_eq_some_iff_append.1 (hfound.symm.trans hfind)
  have hafter := hahead.next hg
  have hbehind : g.findPattern? (g.next? found) none epilogue = after.find? fun id => g.Begins id epilogue :=
    hafter.findPattern? hg (by decide)
  obtain ⟨-, middle, behind, rfl, -⟩ := List.find?_eq_some_iff_append.1 (hbehind.symm.trans hexit)
  refine ⟨passed, middle, behind, rfl, fun id hid hbegins => ?_, hafter.next hg⟩
  have hnot := hpassed id hid
  rw [decide_eq_true hbegins] at hnot
  cases hnot

end Decompilation

end Parley
