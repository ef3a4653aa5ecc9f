import Parley.Proofs.Control.Line
import Parley.Proofs.Listing.Walk
set_option autoImplicit false

/-!
# Marks and lines put into a listing

The recovery of control structures changes a listing in two ways only: it marks items that are no statements, and it
puts lines before items.  So the listing that it leads to can be read off the marks and the lines: what was there is
the same but for the marks, and the new items are the lines in the order in which they were put.
-/

namespace Parley

/-- A line and the item that it is put before. -/
structure Put where
  site : ItemId
  statement : Statement

namespace Graph

/-- In the second listing a line stands before an item of the first one, and behind all that stood before the
item. -/
structure Holds (g g' : Graph) (line : ItemId) (put : Put) : Prop where
  site : put.site < g.size
  item : g'.item line = .ofKind (g.item put.site).pos (.statement put.statement)
  before : Precedes g'.order line put.site
  behind : ∀ id, Precedes g.order id put.site → Precedes g'.order id line

/-- The second listing is the first one with items marked and with lines put before items, oldest first. -/
structure Overlays (g : Graph) (marks : List ItemId) (puts : List Put) (g' : Graph) : Prop where
  ordered : g'.Ordered
  size : g'.size = g.size + puts.length
  order : g.order.Sublist g'.order
  marked : ∀ id ∈ marks, id < g.size ∧ (g.item id).statement? = none
  old : ∀ id < g.size, g'.item id = if id ∈ marks then (g.item id).markProcessed else g.item id
  put : ∀ i put, puts[i]? = some put → g.Holds g' (g.size + i) put

variable {g g' : Graph} {marks : List ItemId} {puts : List Put} {id site : ItemId}

namespace Overlays

/-! ### Composition -/

theorem refl (hg : g.Ordered) : g.Overlays [] [] g where
  ordered := hg
  size := rfl
  order := List.Sublist.refl _
  marked _ h := absurd h List.not_mem_nil
  old _ _ := (if_neg List.not_mem_nil).symm
  put _ _ h := by cases h

theorem lt_size (h : g.Overlays marks puts g') (hid : id < g.size) : id < g'.size :=
  Nat.lt_of_lt_of_le hid (h.size ▸ Nat.le_add_right _ _)

/-- What was there keeps everything but its mark. -/
theorem keeps {α : Type} {p : Item → α} (h : g.Overlays marks puts g')
    (hp : ∀ item : Item, p item.markProcessed = p item) (hid : id < g.size) : p (g'.item id) = p (g.item id) := by
  rw [h.old id hid]
  split
  · exact hp _
  · rfl

theorem mark (h : g.Overlays marks puts g') (hid : id < g.size) (hstatement : (g.item id).statement? = none) :
    g.Overlays (marks ++ [id]) puts (g'.markProcessed id) where
  ordered := h.ordered.markProcessed id
  size := (size_modify g' id _).trans h.size
  order := h.order
  marked other hother := by
    rcases List.mem_append.1 hother with hother | hother
    · exact h.marked other hother
    · rw [List.mem_singleton.1 hother]
      exact ⟨hid, hstatement⟩
  old other hother := by
    rw [markProcessed, item_modify, h.old other hother]
    by_cases hsame : other = id
    · subst hsame
      rw [if_pos ⟨rfl, h.lt_size hid⟩, if_pos (List.mem_append_right _ List.mem_cons_self), h.old other hid]
      split <;> rfl
    · rw [if_neg fun hboth => hsame hboth.1]
      simp only [List.mem_append, List.mem_singleton, hsame, or_false]
  put i put hput := by
    obtain ⟨hsite, hitem, hbefore, hbehind⟩ := h.put i put hput
    refine ⟨hsite, (item_modify_of_ne (fun heq => ?_) _).trans hitem, hbefore, hbehind⟩
    rw [← heq] at hid
    exact absurd hid (Nat.not_lt.2 (Nat.le_add_right _ _))

theorem markAll (h : g.Overlays marks puts g') {ids : List ItemId}
    (hids : ∀ id ∈ ids, id < g.size ∧ (g.item id).statement? = none) :
    g.Overlays (marks ++ ids) puts (g'.modifyAll ids Item.markProcessed) := by
  induction ids generalizing marks g' with
  | nil => rwa [List.append_nil]
  | cons id rest ih =>
    obtain ⟨hid, hstatement⟩ := hids id List.mem_cons_self
    have hrest := ih (h.mark hid hstatement) fun other hother => hids other (List.mem_cons_of_mem _ hother)
    rwa [List.append_assoc] at hrest

theorem markOptional (h : g.Overlays marks puts g') {id? : Option ItemId}
    (hid : ∀ id, id? = some id → id < g.size ∧ (g.item id).statement? = none) :
    g.Overlays (marks ++ id?.toList) puts (g'.markOptional id?) :=
  h.markAll fun id hmem => hid id (Option.mem_toList.1 hmem)

/-- A line may be put before an item that was there. -/
theorem add (h : g.Overlays marks puts g') (hsite : site < g.size) (statement : Statement) :
    g.Overlays marks (puts ++ [⟨site, statement⟩]) (g'.addStatement site statement) := by
  have hlt := h.lt_size hsite
  have hpos : (g'.item site).pos = (g.item site).pos := h.keeps (p := Item.pos) (fun _ => rfl) hsite
  have hmem := (h.ordered.mem_order site).2 hlt
  have hsub : g'.order.Sublist (g'.addStatement site statement).order := sublist_placeBefore _ _ _
  have hordered : (g'.addStatement site statement).Ordered := h.ordered.insertBefore hlt rfl
  have hkept {id : ItemId} (hid : id < g'.size) : (g'.addStatement site statement).item id = g'.item id :=
    item_insertBefore_of_ne (Nat.ne_of_lt hid) _ _
  refine ⟨hordered, ?_, h.order.trans hsub, h.marked, fun id hid => ?_, fun i put hput => ?_⟩
  · rw [addStatement, size_insertBefore, h.size, List.length_append, List.length_singleton, Nat.add_assoc]
  · rw [hkept (h.lt_size hid), h.old id hid]
  · rcases Nat.lt_trichotomy i puts.length with hi | rfl | hi
    · rw [List.getElem?_append_left hi] at hput
      obtain ⟨hsite', hitem, hbefore, hbehind⟩ := h.put i put hput
      exact ⟨hsite', (hkept (h.ordered.lt_of_mem hbefore.left_mem)).trans hitem, hbefore.mono hsub,
        fun id hid => (hbehind id hid).mono hsub⟩
    · rw [List.getElem?_concat_length] at hput
      cases hput
      rw [← h.size]
      refine ⟨hsite, ?_, precedes_placeBefore_site hmem, fun id hid => ?_⟩
      · rw [addStatement, item_insertBefore_new, hpos]
      · exact precedes_placeBefore_new h.ordered.nodup (hid.mono h.order)
    · rw [List.getElem?_eq_none (by rw [List.length_append]; exact hi)] at hput
      cases hput

/-- A line may take the place of an item. -/
theorem replace (h : g.Overlays marks puts g') (hsite : site < g.size)
    (hstatement : (g.item site).statement? = none) (statement : Statement) :
    g.Overlays (marks ++ [site]) (puts ++ [⟨site, statement⟩]) (g'.replaceByStatement site statement) :=
  (h.mark hsite hstatement).add hsite statement

/-! ### What is read off -/

section Old

variable (h : g.Overlays marks puts g') (hid : id < g.size)

include h hid

theorem pos_eq : (g'.item id).pos = (g.item id).pos := h.keeps (fun _ => rfl) hid

theorem opcodeItem?_eq : (g'.item id).opcodeItem? = (g.item id).opcodeItem? := h.keeps (fun _ => rfl) hid

theorem expression?_eq : (g'.item id).expression? = (g.item id).expression? := h.keeps (fun _ => rfl) hid

theorem statement?_eq : (g'.item id).statement? = (g.item id).statement? := h.keeps (fun _ => rfl) hid

theorem processed_iff : (g'.item id).processed = true ↔ (g.item id).processed = true ∨ id ∈ marks := by
  rw [h.old id hid]
  split
  · rename_i hmem
    exact iff_of_true rfl (Or.inr hmem)
  · rename_i hmem
    exact (or_iff_left hmem).symm

theorem controlLine?_eq : (g'.item id).controlLine? = (g.item id).controlLine? := by
  rw [h.old id hid]
  split
  · rename_i hmem
    rw [Item.controlLine?_of_processed rfl, Item.controlLine?_of_statement? (h.marked id hmem).2]
  · rfl

end Old

/-- The items behind those that were there are the lines. -/
theorem exists_put (h : g.Overlays marks puts g') (hid : g.size ≤ id) (hlt : id < g'.size) :
    ∃ i put, puts[i]? = some put ∧ id = g.size + i := by
  obtain ⟨i, rfl⟩ := Nat.exists_eq_add_of_le hid
  have hi : i < puts.length := Nat.lt_of_add_lt_add_left (h.size ▸ hlt)
  exact ⟨i, puts[i], List.getElem?_eq_getElem hi, rfl⟩

theorem lt_size_of_kind (h : g.Overlays marks puts g') (hlt : id < g'.size)
    (hstatement : (g'.item id).statement? = none) : id < g.size := by
  by_contra hge
  obtain ⟨i, put, hput, rfl⟩ := h.exists_put (Nat.le_of_not_lt hge) hlt
  rw [(h.put i put hput).item] at hstatement
  cases hstatement

/-- What is an instruction was one before. -/
theorem lt_size_of_isOpcodeItem (h : g.Overlays marks puts g') (hop : (g'.item id).isOpcodeItem = true) :
    id < g.size :=
  h.lt_size_of_kind (Graph.lt_size_of_isOpcodeItem hop) (Item.statement?_of_isOpcodeItem hop)

theorem isOpenExpression_of (h : g.Overlays marks puts g') (hopen : (g'.item id).isOpenExpression = true) :
    (g.item id).isOpenExpression = true := by
  have hsite := site_of_isOpenExpression hopen
  have hid := h.lt_size_of_kind hsite.lt_size hsite.statement
  rw [h.old id hid] at hopen
  split at hopen
  · cases hopen
  · exact hopen

/-- The lines of the control structure are those from before and those among the lines put. -/
theorem controlLine?_iff (h : g.Overlays marks puts g') {line : Statement} :
    (g'.item id).controlLine? = some line ↔ (g.item id).controlLine? = some line ∨
      line.role.isControl = true ∧ ∃ i site, puts[i]? = some ⟨site, line⟩ ∧ id = g.size + i := by
  rcases Nat.lt_or_ge id g.size with hid | hid
  · rw [h.controlLine?_eq hid]
    refine (or_iff_left fun hnew => ?_).symm
    obtain ⟨-, i, site, -, rfl⟩ := hnew
    exact absurd hid (Nat.not_lt.2 (Nat.le_add_right _ _))
  · rw [item_of_size_le hid, or_iff_right (fun hold => nomatch hold)]
    constructor
    · intro hline
      obtain ⟨i, put, hput, rfl⟩ := h.exists_put hid (Item.lt_size_of_controlLine? hline)
      rw [(h.put i put hput).item, Item.controlLine?_statement] at hline
      split at hline
      · rename_i hrole
        cases hline
        exact ⟨hrole, i, put.site, hput, rfl⟩
      · cases hline
    · rintro ⟨hrole, i, site, hput, rfl⟩
      rw [(h.put i _ hput).item, Item.controlLine?_statement, if_pos hrole]

end Overlays

theorem Overlays.extends (h : g.Overlays marks puts g') : g.Extends g' where
  size := h.size ▸ Nat.le_add_right _ _
  vacant hzero := by
    rw [h.size, hzero, Nat.zero_add, List.length_eq_zero_iff, List.eq_nil_iff_forall_not_mem]
    intro put hput
    obtain ⟨i, hi⟩ := List.mem_iff_getElem?.1 hput
    exact absurd (h.put i put hi).site (by simp [hzero])
  order := h.order
  code id hid := h.keeps (p := Item.code) (fun _ => rfl) hid
  processed id hid hmarked := (h.processed_iff hid).2 (Or.inl hmarked)
  fresh id hid := by
    by_contra hop
    exact absurd hid (Nat.not_le.2 (h.lt_size_of_isOpcodeItem (Bool.eq_true_of_not_eq_false hop)))

/-- What was there stands between two items where it stood between them before. -/
theorem Extends.within_iff {start stop : ItemId} (h : g.Extends g') (hg : g.Ordered) (hg' : g'.Ordered)
    (hbounds : Precedes g.order start stop) (hid : id < g.size) :
    g'.Within start stop id ↔ g.Within start stop id := by
  have hmem := (hg.mem_order id).2 hid
  refine ⟨fun hwithin => ⟨?_, ?_⟩, fun hwithin => hwithin.mono h.order⟩
  · exact hwithin.1.of_sublist hg'.nodup h.order hbounds.left_mem hmem
  · exact hwithin.2.of_sublist hg'.nodup h.order hmem hbounds.right_mem

theorem Extends.isSome_findPos? (h : g.Extends g') (hg : g.Ordered) (hg' : g'.Ordered) {pos : UInt16}
    (hfound : (g.findPos? pos).isSome = true) : (g'.findPos? pos).isSome = true := by
  obtain ⟨site, hsite⟩ := Option.isSome_iff_exists.1 hfound
  obtain ⟨hmem, hpos⟩ := hg.of_findPos? hsite
  have hlt := hg.lt_of_mem hmem
  exact hg'.isSome_findPos? (Nat.lt_of_lt_of_le hlt h.size) ((congrArg Prod.fst (h.code site hlt)).trans hpos)

/-- What the items of a listing keep while items are marked and lines are put. -/
structure Retains (g g' : Graph) : Prop extends Carries g g' where
  ordered : g'.Ordered
  expression? : ∀ id < g.size, (g'.item id).expression? = (g.item id).expression?
  made : ∀ id, g.size ≤ id → (g'.item id).expression? = none

namespace Retains

variable {g'' : Graph}

theorem refl (hg : g.Ordered) : g.Retains g where
  ordered := hg
  longer := Extends.refl g
  opcodeItem? _ _ := rfl
  expression? _ _ := rfl
  controlLine? _ _ := rfl
  made id hid := by
    rw [item_of_size_le hid]
    rfl

theorem trans (h : g.Retains g') (h' : g'.Retains g'') : g.Retains g'' := by
  have hlt {id : ItemId} (hid : id < g.size) : id < g'.size := Nat.lt_of_lt_of_le hid h.longer.size
  refine ⟨⟨h.longer.trans h'.longer, fun id hid => ?_, fun id hid => ?_⟩, h'.ordered, fun id hid => ?_,
    fun id hid => ?_⟩
  · exact (h'.opcodeItem? id (hlt hid)).trans (h.opcodeItem? id hid)
  · exact (h'.controlLine? id (hlt hid)).trans (h.controlLine? id hid)
  · exact (h'.expression? id (hlt hid)).trans (h.expression? id hid)
  · by_cases hlt : id < g'.size
    · exact (h'.expression? id hlt).trans (h.made id hid)
    · exact h'.made id (Nat.le_of_not_lt hlt)

end Retains

theorem Overlays.retains (h : g.Overlays marks puts g') : g.Retains g' where
  ordered := h.ordered
  longer := h.extends
  opcodeItem? _ := h.opcodeItem?_eq
  expression? _ := h.expression?_eq
  controlLine? _ := h.controlLine?_eq
  made id hid := by
    by_cases hlt : id < g'.size
    · obtain ⟨i, put, hput, rfl⟩ := h.exists_put hid hlt
      rw [(h.put i put hput).item]
      rfl
    · rw [item_of_size_le (Nat.le_of_not_lt hlt)]
      rfl

theorem Overlays.isOpenOpcode_of (h : g.Overlays marks puts g') {opcode : Opcode}
    (hopen : (g'.item id).isOpenOpcode opcode = true) : (g.item id).isOpenOpcode opcode = true :=
  h.retains.toCarries.isOpenOpcode_of hopen

end Graph

end Parley
