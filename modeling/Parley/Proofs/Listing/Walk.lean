import Parley.Proofs.Listing.Growth
import Mathlib.Data.List.Perm.Basic
import Mathlib.Data.List.Nodup
import Mathlib.Data.List.TakeWhile
set_option autoImplicit false

/-!
# Walks along a listing

Who follows the links of an ordered listing from its foremost item on meets every item once.  Where a listing
has grown out of another one, the instructions that are met are those of the other, unchanged.
-/

namespace Parley.Graph

variable {g g' g'' : Graph} {a b id : ItemId}

/-! ## Links -/

/-- The items met from an item on by following the links, at most `fuel` of them. -/
def follow (g : Graph) : Nat → Option ItemId → List ItemId
  | fuel + 1, some id => id :: g.follow fuel (g.next? id)
  | _, _ => []

/-- The items met from the foremost one on by following the links.  The walk may be longer by one than there
are items, so that it would show a cycle. -/
def walk (g : Graph) : List ItemId := g.follow (g.size + 1) g.first?

/-- An instruction of a listing: where it stands, its word, its opcode and its operand. -/
def instruction? (g : Graph) (id : ItemId) :
    Option (ItemId × UInt16 × UInt16 × Option Opcode × Option UInt16) :=
  (g.item id).opcodeItem?.map fun op => (id, (g.item id).pos, op.word, op.opcode, op.operand)

/-- A listing is intact when its links lead through all items and back, its positions do not decrease, it knows
the foremost item of each position, and its instructions are those of the listing that it was made of. -/
structure Intact (origin g : Graph) : Prop where
  walk : g.walk.Perm (List.range g.size)
  links : ∀ a b, b < g.size → (g.next? a = some b ↔ g.prev? b = some a)
  sorted : g.walk.Pairwise fun a b => (g.item a).pos ≤ (g.item b).pos
  findPos : ∀ pos, g.findPos? pos = g.walk.find? fun id => (g.item id).pos = pos
  instructions : g.walk.filterMap g.instruction? = origin.walk.filterMap origin.instruction?

namespace Ordered

variable (hg : g.Ordered)

include hg

theorem follow_split {front behind : List ItemId} (horder : g.order = front ++ behind) {fuel : Nat}
    (hfuel : behind.length ≤ fuel) : g.follow fuel behind.head? = behind := by
  induction behind generalizing front fuel with
  | nil => cases fuel <;> rfl
  | cons id rest ih =>
    obtain ⟨fuel, rfl⟩ : ∃ less, fuel = less + 1 := ⟨fuel - 1, by rw [List.length_cons] at hfuel; omega⟩
    have horder' : g.order = (front ++ [id]) ++ rest := by rw [horder, List.append_assoc]; rfl
    have hrest := ih horder' (Nat.le_of_succ_le_succ hfuel)
    rw [List.head?_cons, follow, next?_split horder (hg.notMem_front horder), hrest]

theorem perm_range : g.order.Perm (List.range g.size) :=
  (List.perm_ext_iff_of_nodup hg.nodup List.nodup_range).2 fun id => by rw [hg.mem_order, List.mem_range]

theorem length_order : g.order.length = g.size := by rw [hg.perm_range.length_eq, List.length_range]

/-- The walk is the order of the listing. -/
theorem walk_eq : g.walk = g.order :=
  hg.follow_split (List.nil_append g.order).symm (hg.length_order ▸ Nat.le_succ _)

theorem next?_eq_some_iff (hb : b < g.size) : g.next? a = some b ↔ g.prev? b = some a := by
  constructor
  · intro h
    have ha : a ∈ g.order := by
      by_contra hmem
      have hnone : g.startingAt a = [] := by
        rw [startingAt, List.dropWhile_eq_nil_iff]
        intro x hx
        have hne : x ≠ a := fun heq => hmem (heq ▸ hx)
        simpa using hne
      rw [next?, after, hnone] at h
      cases h
    obtain ⟨front, behind, horder, hfront, -⟩ := hg.split (hg.lt_of_mem ha)
    rw [next?_split horder hfront] at h
    obtain ⟨rest, rfl⟩ := List.head?_eq_some_iff.1 h
    have hsplit : g.order = (front ++ [a]) ++ b :: rest := by rw [horder, List.append_assoc]; rfl
    rw [prev?_split hsplit (hg.notMem_front hsplit), List.getLast?_append, List.getLast?_singleton]
    rfl
  · intro h
    obtain ⟨front, behind, horder, hfront, -⟩ := hg.split hb
    rw [prev?_split horder hfront] at h
    obtain ⟨before, rfl⟩ := List.getLast?_eq_some_iff.1 h
    have hsplit : g.order = before ++ a :: b :: behind := by rw [horder, List.append_assoc]; rfl
    rw [next?_split hsplit (hg.notMem_front hsplit), List.head?_cons]

end Ordered

/-! ## Extension -/

/-- The second graph is the first one with more items, none of them an instruction.  Items are marked as
replaced for good. -/
structure Extends (g g' : Graph) : Prop where
  size : g.size ≤ g'.size
  vacant : g.size = 0 → g'.size = 0
  order : g.order.Sublist g'.order
  code : ∀ id < g.size, (g'.item id).code = (g.item id).code
  processed : ∀ id < g.size, (g.item id).processed = true → (g'.item id).processed = true
  fresh : ∀ id, g.size ≤ id → (g'.item id).isOpcodeItem = false

theorem isOpcodeItem_eq_of_code {old new : Item} (h : new.code = old.code) :
    new.isOpcodeItem = old.isOpcodeItem := by
  have hcode := congrArg (fun code => code.2.isSome) h
  simpa [Item.code, Item.isOpcodeItem] using hcode

theorem Widens.extends {lines : List (ItemId × StatementRole)} (h : g.Widens lines g') :
    g.Extends g' :=
  ⟨h.size, h.vacant, h.order, fun id hid => (h.kept id hid).code, fun id hid => (h.kept id hid).processed, h.fresh⟩

namespace Extends

theorem refl (g : Graph) : g.Extends g :=
  ⟨Nat.le_refl _, id, List.Sublist.refl _, fun _ _ => rfl, fun _ _ => id, fun id hid => by
    rw [item_of_size_le hid]
    rfl⟩

/-- What is an instruction was there before. -/
theorem lt_of_isOpcodeItem (h : g.Extends g') {id : ItemId} (hid : (g'.item id).isOpcodeItem = true) : id < g.size := by
  by_contra hge
  rw [h.fresh id (Nat.le_of_not_lt hge)] at hid
  cases hid

theorem trans (h : g.Extends g') (h' : g'.Extends g'') : g.Extends g'' := by
  have hlt {id : ItemId} (hid : id < g.size) : id < g'.size := Nat.lt_of_lt_of_le hid h.size
  refine ⟨Nat.le_trans h.size h'.size, h'.vacant ∘ h.vacant, h.order.trans h'.order, fun id hid =>
    (h'.code id (hlt hid)).trans (h.code id hid), fun id hid hmarked =>
    h'.processed id (hlt hid) (h.processed id hid hmarked), fun id hid => ?_⟩
  by_cases hid' : id < g'.size
  · rw [isOpcodeItem_eq_of_code (h'.code id hid'), h.fresh id hid]
  · exact h'.fresh id (Nat.le_of_not_lt hid')

/-- Of the items of an extension those of the graph stand in their old order. -/
theorem filter_order (h : g.Extends g') (hg : g.Ordered) (hg' : g'.Ordered) :
    g'.order.filter (· < g.size) = g.order := by
  have hold : g.order.filter (· < g.size) = g.order := by
    rw [List.filter_eq_self]
    exact fun id hid => decide_eq_true (hg.lt_of_mem hid)
  have hsub : g.order.Sublist (g'.order.filter (· < g.size)) := hold ▸ h.order.filter _
  refine (hsub.eq_of_length_le ?_).symm
  refine (List.subperm_of_subset (hg'.nodup.filter _) fun id hid => ?_).length_le
  exact (hg.mem_order id).2 (of_decide_eq_true (List.mem_filter.1 hid).2)

/-- Between two items of the graph an extension has those that the graph has there, in their old order. -/
theorem filter_between (h : g.Extends g') (hg : g.Ordered) (hg' : g'.Ordered) (ha : a < g.size)
    (hb : b < g.size) : (g'.between a b).filter (· < g.size) = g.between a b := by
  have hskip {id : ItemId} (hid : id < g.size) :
      (fun x : ItemId => !decide (x < g.size) || decide (x ≠ id)) = fun x => decide (x ≠ id) := by
    funext x
    by_cases hx : x = id <;> simp [hx, hid]
  have hstart : g.startingAt a = (g'.startingAt a).filter (· < g.size) := by
    rw [startingAt, ← h.filter_order hg hg', List.dropWhile_filter, hskip ha, startingAt]
  obtain ⟨front, behind, horder, hfront, -⟩ := hg'.split (Nat.lt_of_lt_of_le ha h.size)
  have hafter : g.after a = (g'.after a).filter (· < g.size) := by
    rw [after, hstart, startingAt_split horder hfront, List.filter_cons, if_pos (decide_eq_true ha),
      after_split horder hfront, List.tail_cons]
  rw [between, between, hafter, List.takeWhile_filter, hskip hb]

/-- Neighbours in an extension that are items of the graph are neighbours there. -/
theorem adjoins (h : g.Extends g') (hg : g.Ordered) (hg' : g'.Ordered)
    (ha : a < g.size) (hb : b < g.size) (hadjoins : Adjoins g'.order a b) : Adjoins g.order a b := by
  obtain ⟨front, behind, horder⟩ := hadjoins
  refine ⟨front.filter (· < g.size), behind.filter (· < g.size), ?_⟩
  rw [← h.filter_order hg hg', horder, List.filter_append, List.filter_cons, if_pos (decide_eq_true ha),
    List.filter_cons, if_pos (decide_eq_true hb)]

theorem instruction?_eq (h : g.Extends g') (hid : id < g.size) :
    g'.instruction? id = g.instruction? id := by
  have hcode := h.code id hid
  simp only [Item.code, Prod.mk.injEq] at hcode
  have hentry := congrArg (Option.map fun op => (id, (g.item id).pos, op)) hcode.2
  simp only [Option.map_map, Function.comp_def] at hentry
  unfold instruction?
  rw [hcode.1]
  exact hentry

/-- The instructions of an extension are those of the graph. -/
theorem instructions_eq (h : g.Extends g') (hg : g.Ordered) (hg' : g'.Ordered) :
    g'.order.filterMap g'.instruction? = g.order.filterMap g.instruction? := by
  rw [← h.filter_order hg hg', List.filterMap_filter]
  refine List.filterMap_congr fun id _ => ?_
  by_cases hid : id < g.size
  · rw [if_pos (decide_eq_true hid), h.instruction?_eq hid]
  · have hfresh := h.fresh id (Nat.le_of_not_lt hid)
    rw [Item.isOpcodeItem, Option.isSome_eq_false_iff, Option.isNone_iff_eq_none] at hfresh
    rw [if_neg (by simpa using hid), instruction?, hfresh]
    rfl

/-- An extension of an ordered listing that is ordered is intact. -/
theorem intact (h : g.Extends g') (hg : g.Ordered) (hg' : g'.Ordered) : g.Intact g' where
  walk := hg'.walk_eq ▸ hg'.perm_range
  links := fun _ _ hb => hg'.next?_eq_some_iff hb
  sorted := hg'.walk_eq ▸ hg'.sorted
  findPos := hg'.walk_eq ▸ hg'.findPos
  instructions := by
    rw [hg'.walk_eq, hg.walk_eq]
    exact h.instructions_eq hg hg'

end Extends

theorem extends_markAll (g : Graph) (ids : List ItemId) :
    g.Extends (g.modifyAll ids Item.markProcessed) := by
  refine ⟨Nat.le_of_eq (size_markAll g ids).symm, (size_markAll g ids).trans, by rw [order_markAll],
    fun id _ => markAll_keeps (fun _ => rfl) g ids id, fun id _ hmarked => ?_, fun id hid => ?_⟩
  · rw [item_markAll]
    split
    · rfl
    · exact hmarked
  · rw [item_of_size_le (by rwa [size_markAll])]
    rfl

/-! ## Instructions in a row -/

/-- The instructions from an item on. -/
def instructionsFrom (g : Graph) (id : ItemId) : List ItemId :=
  (g.startingAt id).filter fun other => (g.item other).isOpcodeItem

/-- The instructions from an item on begin with the opcodes of a pattern, where other items may stand between
them. -/
def Begins (g : Graph) (id : ItemId) (pattern : List Opcode) : Prop :=
  pattern.map some <+: (g.instructionsFrom id).map fun other => (g.item other).opcode?

theorem instructionsFrom_split {front behind : List ItemId} (hg : g.Ordered)
    (horder : g.order = front ++ id :: behind) :
    g.instructionsFrom id = (id :: behind).filter fun other => (g.item other).isOpcodeItem := by
  rw [instructionsFrom, startingAt_split horder (hg.notMem_front horder)]

theorem lt_of_mem_instructionsFrom {other : ItemId} (h : other ∈ g.instructionsFrom id) :
    other < g.size :=
  lt_size_of_isOpcodeItem (List.mem_filter.1 h).2

/-- What matches a pattern begins with it, since its instructions stand side by side. -/
theorem begins_of_matchesPattern {stop : ItemId} {pattern : List Opcode}
    (h : g.matchesPattern id stop pattern = true) : g.Begins id pattern := by
  have hspells {pattern : List Opcode} {ids : List ItemId} (h : g.spells stop pattern ids = true) :
      pattern.map some <+:
        (ids.filter fun other => (g.item other).isOpcodeItem).map fun other => (g.item other).opcode? := by
    induction pattern generalizing ids with
    | nil => exact List.nil_prefix
    | cons opcode pattern ih =>
      cases ids with
      | nil => cases h
      | cons other rest =>
        rw [spells, Bool.and_eq_true, Bool.and_eq_true] at h
        have hopcode : (g.item other).opcode? = some opcode := of_decide_eq_true h.1.2
        rw [List.filter_cons, if_pos (Item.isOpcodeItem_of_opcode? hopcode), List.map_cons, List.map_cons,
          hopcode]
        exact (List.prefix_cons_inj _).2 (ih h.2)
  exact hspells (Bool.and_eq_true _ _ ▸ h).2

/-- An extension has the same instructions from an item on. -/
theorem Extends.instructionsFrom (h : g.Extends g') (hg : g.Ordered) (hg' : g'.Ordered)
    (hid : id < g.size) : g'.instructionsFrom id = g.instructionsFrom id := by
  obtain ⟨front, behind, horder, -⟩ := hg'.split (Nat.lt_of_lt_of_le hid h.size)
  have hold := h.filter_order hg hg'
  have hbehind : (id :: behind).filter (· < g.size) = id :: behind.filter (· < g.size) := by
    rw [List.filter_cons, if_pos (decide_eq_true hid)]
  rw [horder, List.filter_append, hbehind] at hold
  rw [instructionsFrom_split hg' horder, instructionsFrom_split hg hold.symm, ← hbehind, List.filter_filter]
  refine List.filter_congr fun other _ => ?_
  by_cases hother : other < g.size
  · simp [hother, isOpcodeItem_eq_of_code (h.code other hother)]
  · simp [hother, h.fresh other (Nat.le_of_not_lt hother)]

theorem Begins.opcode? {opcode : Opcode} {pattern : List Opcode} (h : g.Begins id (opcode :: pattern))
    (hg : g.Ordered) (hid : (g.item id).isOpcodeItem = true) : (g.item id).opcode? = some opcode := by
  obtain ⟨front, behind, horder, -⟩ := hg.split (lt_size_of_isOpcodeItem hid)
  rw [Begins, instructionsFrom_split hg horder, List.filter_cons, if_pos hid] at h
  exact (List.cons_prefix_cons.1 h).1.symm

/-- The instructions from an instruction on are those from the next one on, with it before them. -/
theorem instructionsFrom_of_adjoins (hg : g.Ordered) (h : Adjoins g.order a b)
    (ha : (g.item a).isOpcodeItem = true) : g.instructionsFrom a = a :: g.instructionsFrom b := by
  obtain ⟨front, behind, horder⟩ := h
  have horder' : g.order = (front ++ [a]) ++ b :: behind := by rw [horder, List.append_assoc]; rfl
  rw [instructionsFrom_split hg horder, instructionsFrom_split hg horder', List.filter_cons, if_pos ha]

/-- An instruction directly before others belongs to what they begin with. -/
theorem Begins.cons {opcode : Opcode} {pattern : List Opcode} (h : g.Begins b pattern) (hg : g.Ordered)
    (hadjoins : Adjoins g.order a b) (hopcode : (g.item a).opcode? = some opcode) :
    g.Begins a (opcode :: pattern) := by
  rw [Begins, instructionsFrom_of_adjoins hg hadjoins (Item.isOpcodeItem_of_opcode? hopcode), List.map_cons,
    List.map_cons, hopcode]
  exact (List.prefix_cons_inj _).2 h

theorem Extends.begins_iff {pattern : List Opcode} (h : g.Extends g') (hg : g.Ordered) (hg' : g'.Ordered)
    (hid : id < g.size) : g'.Begins id pattern ↔ g.Begins id pattern := by
  have hopcodes : ((g.instructionsFrom id).map fun other => (g'.item other).opcode?) =
      (g.instructionsFrom id).map fun other => (g.item other).opcode? :=
    List.map_congr_left fun other hother => Item.opcode?_of_code (h.code other (lt_of_mem_instructionsFrom hother))
  rw [Begins, h.instructionsFrom hg hg' hid, hopcodes, Begins]

theorem Begins.extends {pattern : List Opcode} (hbegins : g.Begins id pattern) (h : g.Extends g')
    (hg : g.Ordered) (hg' : g'.Ordered) (hid : id < g.size) : g'.Begins id pattern :=
  (h.begins_iff hg hg' hid).2 hbegins

/-- Instructions that begin with a pattern have its opcodes. -/
theorem Begins.exists_opcode {pattern : List Opcode} {other : ItemId} (hbegins : g.Begins id pattern)
    (hother : other ∈ (g.instructionsFrom id).take pattern.length) :
    ∃ opcode ∈ pattern, (g.item other).opcode? = some opcode := by
  have hmem : (g.item other).opcode? ∈
      ((g.instructionsFrom id).map fun other => (g.item other).opcode?).take pattern.length := by
    rw [← List.map_take]
    exact List.mem_map_of_mem hother
  have htake := List.prefix_iff_eq_take.1 hbegins
  rw [List.length_map] at htake
  rw [← htake] at hmem
  obtain ⟨opcode, hopcode, hsome⟩ := List.mem_map.1 hmem
  exact ⟨opcode, hopcode, hsome.symm⟩

/-- Instructions that have the opcodes of a pattern without calls may be marked. -/
theorem Begins.grows_markOpcodes {pattern : List Opcode} (hbegins : g.Begins id pattern) (hg : g.Sound)
    (hcall : Opcode.call ∉ pattern) : g.Grows [] (g.markOpcodes id pattern.length) := by
  refine grows_markAll hg fun other hother => ?_
  obtain ⟨opcode, hmem, hopcode⟩ := hbegins.exists_opcode hother
  refine site_of_isOpcodeItem (Item.isOpcodeItem_of_opcode? hopcode) fun hsame => hcall ?_
  rw [hopcode, Option.some.injEq] at hsame
  exact hsame ▸ hmem

end Parley.Graph
