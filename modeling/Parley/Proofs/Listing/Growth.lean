import Parley.Proofs.Decompile.CrossReference
import Parley.Proofs.Listing.Precedence
import Mathlib.Data.List.Basic
set_option autoImplicit false

/-!
# How a listing grows

All passes behind the cross references work on a listing in the same way.  They put items before others, at
the position of those, they mark items as replaced, and of the items that are there they change labels,
expressions and the texts of plain statements only.  The lines that open, divide and close blocks stay as they
were written, so they can be read off in the order of writing.  Calls are marked where that is the purpose, and
nowhere else.
-/

namespace Parley

/-! ## Lines of blocks -/

/-- Whether a statement opens, divides or closes a block. -/
def StatementRole.isBlock : StatementRole → Bool
  | .opens _ | .alternative | .closes _ => true
  | _ => false

/-- What an item is, apart from its text. -/
def ItemKind.outline : ItemKind → ItemKind
  | .statement _ => .statement (.plain "")
  | .expression _ => .expression (.atom "" false)
  | kind => kind

namespace Item

/-- The statement that an item shows, if it opens, divides or closes a block. -/
def blockLine? (item : Item) : Option Statement :=
  if item.processed then none else item.statement?.filter (·.role.isBlock)

theorem blockLine?_of_statement? {item : Item} (h : item.statement? = none) :
    item.blockLine? = none := by
  rw [blockLine?, h]
  split <;> rfl

theorem blockLine?_of_processed {item : Item} (h : item.processed = true) :
    item.blockLine? = none := if_pos h

theorem isOpcodeItem_of_opcode? {item : Item} {opcode : Opcode} (h : item.opcode? = some opcode) :
    item.isOpcodeItem = true := by
  obtain ⟨op, hop, -⟩ := Option.bind_eq_some_iff.1 h
  rw [isOpcodeItem, hop]
  rfl

theorem isOpcodeItem_of_isOpcode {item : Item} {opcode : Opcode} (h : item.isOpcode opcode = true) :
    item.isOpcodeItem = true := isOpcodeItem_of_opcode? (of_decide_eq_true h)

theorem statement?_of_isOpcodeItem {item : Item} (h : item.isOpcodeItem = true) :
    item.statement? = none := by
  unfold isOpcodeItem opcodeItem? at h
  unfold statement?
  cases hkind : item.kind <;> simp_all

theorem opcode?_of_isOpenOpcode {item : Item} {opcode : Opcode} (h : item.isOpenOpcode opcode = true) :
    item.opcode? = some opcode := by
  simp only [isOpenOpcode, isOpcode, Bool.and_eq_true, decide_eq_true_eq] at h
  exact h.2

/-- What the passes keep of an item. -/
structure Kept (old new : Item) : Prop where
  pos : new.pos = old.pos
  outline : new.kind.outline = old.kind.outline
  call : old.isOpcode .call = true → new.processed = old.processed
  processed : old.processed = true → new.processed = true
  shown : ∀ statement, old.processed = false → old.statement? = some statement →
    statement.text.toList.head? ≠ some 'l' → new.processed = false ∧ new.statement? = some statement
  blockLine : new.blockLine? = old.blockLine?

namespace Kept

theorem refl (item : Item) : item.Kept item :=
  ⟨rfl, rfl, fun _ => rfl, id, fun _ hopen hstatement _ => ⟨hopen, hstatement⟩, rfl⟩

variable {old new : Item}

theorem op (h : old.Kept new) : new.opcodeItem? = old.opcodeItem? := by
  have houtline := h.outline
  unfold opcodeItem?
  cases hold : old.kind <;> cases hnew : new.kind <;> simp_all [ItemKind.outline]

theorem statement (h : old.Kept new) : new.statement?.isSome = old.statement?.isSome := by
  have houtline := h.outline
  unfold statement?
  cases hold : old.kind <;> cases hnew : new.kind <;> simp_all [ItemKind.outline]

theorem expression (h : old.Kept new) : new.expression?.isSome = old.expression?.isSome := by
  have houtline := h.outline
  unfold expression?
  cases hold : old.kind <;> cases hnew : new.kind <;> simp_all [ItemKind.outline]

theorem front (h : old.Kept new) : new.kind = .functionStart ↔ old.kind = .functionStart := by
  have houtline := h.outline
  cases hold : old.kind <;> cases hnew : new.kind <;> simp_all [ItemKind.outline]

theorem back (h : old.Kept new) : new.kind = .functionEnd ↔ old.kind = .functionEnd := by
  have houtline := h.outline
  cases hold : old.kind <;> cases hnew : new.kind <;> simp_all [ItemKind.outline]

theorem code (h : old.Kept new) : new.code = old.code := by rw [Item.code, h.pos, h.op, Item.code]

theorem opcode? (h : old.Kept new) : new.opcode? = old.opcode? := by
  rw [Item.opcode?, h.op, Item.opcode?]

theorem isOpcodeItem (h : old.Kept new) : new.isOpcodeItem = old.isOpcodeItem := by
  rw [Item.isOpcodeItem, h.op, Item.isOpcodeItem]

theorem isOpcode (h : old.Kept new) (opcode : Opcode) : new.isOpcode opcode = old.isOpcode opcode := by
  rw [Item.isOpcode, h.opcode?, Item.isOpcode]

theorem statement?_eq_none (h : old.Kept new) (hnone : old.statement? = none) :
    new.statement? = none := by
  have hsome := h.statement
  rw [hnone] at hsome
  exact Option.not_isSome_iff_eq_none.1 (by simp [hsome])

theorem trans {a b c : Item} (hab : a.Kept b) (hbc : b.Kept c) : a.Kept c where
  pos := hbc.pos.trans hab.pos
  outline := hbc.outline.trans hab.outline
  call := fun h => (hbc.call ((hab.isOpcode .call).trans h)).trans (hab.call h)
  processed := fun h => hbc.processed (hab.processed h)
  shown := fun statement hopen hstatement hletter => by
    obtain ⟨hopen', hstatement'⟩ := hab.shown statement hopen hstatement hletter
    exact hbc.shown statement hopen' hstatement' hletter
  blockLine := hbc.blockLine.trans hab.blockLine

/-- An item that is no statement may be marked, unless it is a call. -/
theorem markProcessed (h : old.statement? = none) (hfree : old.isOpcode .call = false) :
    old.Kept old.markProcessed := by
  refine ⟨rfl, rfl, fun hcall => ?_, fun _ => rfl, fun statement _ hstatement _ => ?_,
    (blockLine?_of_processed rfl).trans (blockLine?_of_statement? h).symm⟩
  · rw [hfree] at hcall
    cases hcall
  · rw [h] at hstatement
    cases hstatement

/-- Where both items are marked a call may be marked, too. -/
theorem markBoth (h : old.Kept new) : old.markProcessed.Kept new.markProcessed := by
  refine ⟨h.pos, h.outline, fun _ => rfl, fun _ => rfl, fun statement hopen => ?_,
    (blockLine?_of_processed rfl).trans (blockLine?_of_processed rfl).symm⟩
  cases hopen

theorem withLabel (item : Item) (label : Option String) (xrefCount : Nat) :
    item.Kept { item with label, xrefCount } :=
  ⟨rfl, rfl, fun _ => rfl, id, fun _ hopen hstatement _ => ⟨hopen, hstatement⟩, rfl⟩

theorem withoutLabel (item : Item) : item.Kept item.withoutLabel := withLabel item none 0

/-- An expression may become another one. -/
theorem withExpression {item : Item} (h : item.expression?.isSome) (expression : Expr) :
    item.Kept (item.withExpression expression) := by
  obtain ⟨pos, label, xrefCount, processed, kind⟩ := item
  cases kind with
  | expression old =>
    refine ⟨rfl, rfl, fun _ => rfl, id, fun _ _ hstatement _ => ?_, rfl⟩
    cases hstatement
  | _ => cases h

/-- A statement that is no line of a block may become a comment if it begins like a local variable. -/
theorem commented {item : Item} {statement : Statement} (hstatement : item.statement? = some statement)
    (hletter : statement.text.toList.head? = some 'l') (h : item.blockLine? = none) (text : String) :
    item.Kept (item.withText text).markProcessed := by
  obtain ⟨pos, label, xrefCount, processed, kind⟩ := item
  cases kind with
  | statement old =>
    refine ⟨rfl, rfl, fun hcall => ?_, fun _ => rfl, fun other _ hother hne => ?_,
      (blockLine?_of_processed rfl).trans h.symm⟩
    · cases hcall
    · rw [hstatement, Option.some.injEq] at hother
      exact absurd (hother ▸ hletter) hne
  | _ => cases hstatement

end Kept

end Item

namespace Graph

/-- The lines of blocks in the order in which they were written. -/
def entries (g : Graph) : List (ItemId × StatementRole) :=
  (List.range g.size).filterMap fun id => (g.item id).blockLine?.map fun line => (id, line.role)

theorem entries_congr {g g' : Graph} (hsize : g'.size = g.size)
    (h : ∀ id < g.size, (g'.item id).blockLine? = (g.item id).blockLine?) : g'.entries = g.entries := by
  rw [entries, hsize]
  exact List.filterMap_congr fun id hid => by rw [h id (List.mem_range.1 hid)]

/-- The lines of blocks in the order of the listing. -/
def blockRole? (g : Graph) (id : ItemId) : Option StatementRole := (g.item id).blockLine?.map (·.role)

theorem mem_entries {g : Graph} {id : ItemId} {role : StatementRole} :
    (id, role) ∈ g.entries ↔ id < g.size ∧ g.blockRole? id = some role := by
  simp [entries, blockRole?]

theorem nodup_entries (g : Graph) : (g.entries.map Prod.fst).Nodup := by
  have hsub : (g.entries.map Prod.fst).Sublist (List.range g.size) := by
    unfold entries
    generalize List.range g.size = ids
    induction ids with
    | nil => exact List.Sublist.slnil
    | cons id rest ih =>
      rw [List.filterMap_cons]
      cases (g.item id).blockLine? with
      | none => exact ih.cons id
      | some line => exact ih.cons_cons id
  exact hsub.nodup List.nodup_range

theorem item_of_size_le {g : Graph} {id : ItemId} (h : g.size ≤ id) : g.item id = default := by
  have hsize : g.items.size ≤ id := h
  simp [item, hsize]

/-! ## Sound listings -/

/-- A line that opens a function stands between its header and another item, all at the same position. -/
structure Enclosed (g : Graph) (id header behind : ItemId) : Prop where
  above : Adjoins g.order header id
  below : Adjoins g.order id behind
  statement : (g.item header).statement?.isSome = true
  posHeader : (g.item header).pos = (g.item id).pos
  posBehind : (g.item behind).pos = (g.item id).pos

/-- A graph that the passes may work on: its listing is in order, its instructions stand at different
positions, no line of a block begins like the name of a local variable, and the lines that open functions
stand behind their headers. -/
structure Sound (g : Graph) : Prop where
  ordered : g.Ordered
  spaced : ∀ a b, Precedes g.order a b → (g.item a).isOpcodeItem = true →
    (g.item b).isOpcodeItem = true → (g.item a).pos < (g.item b).pos
  letter : ∀ id line, (g.item id).blockLine? = some line → line.text.toList.head? ≠ some 'l'
  enclosed : ∀ id, g.blockRole? id = some (.opens .function) → ∃ header behind, g.Enclosed id header behind

/-- An item that is no statement, and may be marked. -/
structure Site (g : Graph) (id : ItemId) : Prop where
  lt_size : id < g.size
  statement : (g.item id).statement? = none
  free : (g.item id).isOpcode .call = false

/-- An item that lines may be put before: they may not come between a header and the line behind it. -/
structure Place (g : Graph) (id : ItemId) : Prop where
  lt_size : id < g.size
  apart : g.blockRole? id ≠ some (.opens .function)

section Places

variable {g : Graph} {id : ItemId}

theorem place_of_statement? (hid : id < g.size) (h : (g.item id).statement? = none) : g.Place id := by
  refine ⟨hid, ?_⟩
  rw [blockRole?, Item.blockLine?_of_statement? h]
  exact fun hrole => nomatch hrole

theorem Site.place (h : g.Site id) : g.Place id := place_of_statement? h.lt_size h.statement

theorem lt_size_of_kind (h : (g.item id).kind ≠ .functionEnd) : id < g.size := by
  by_contra hge
  rw [item_of_size_le (Nat.le_of_not_lt hge)] at h
  exact h rfl

/-- An instruction is no statement. -/
theorem site_of_isOpcodeItem (h : (g.item id).isOpcodeItem = true)
    (hcall : (g.item id).opcode? ≠ some .call) : g.Site id := by
  refine ⟨lt_size_of_kind fun hkind => ?_, Item.statement?_of_isOpcodeItem h, decide_eq_false hcall⟩
  simp [Item.isOpcodeItem, Item.opcodeItem?, hkind] at h

theorem lt_size_of_isOpcodeItem (h : (g.item id).isOpcodeItem = true) : id < g.size :=
  lt_size_of_kind fun hkind => by simp [Item.isOpcodeItem, Item.opcodeItem?, hkind] at h

theorem site_of_isOpenOpcode {opcode : Opcode} (h : (g.item id).isOpenOpcode opcode = true)
    (hcall : opcode ≠ .call) : g.Site id := by
  have hopcode := Item.opcode?_of_isOpenOpcode h
  refine site_of_isOpcodeItem (Item.isOpcodeItem_of_opcode? hopcode) fun hsame => hcall ?_
  rw [hopcode] at hsame
  exact Option.some.inj hsame

/-- An expression is no statement. -/
theorem site_of_isOpenExpression (h : (g.item id).isOpenExpression = true) : g.Site id := by
  unfold Item.isOpenExpression Item.expression? at h
  refine ⟨lt_size_of_kind fun hkind => by simp [hkind] at h, ?_, ?_⟩
  · unfold Item.statement?
    cases hkind : (g.item id).kind <;> simp_all
  · unfold Item.isOpcode Item.opcode? Item.opcodeItem?
    cases hkind : (g.item id).kind <;> simp_all

end Places

namespace Sound

variable {g : Graph} {id other : ItemId} {pos : UInt16} (hg : g.Sound)

include hg

/-- Instructions at the same position are the same. -/
theorem eq_of_pos_eq (hid : (g.item id).isOpcodeItem = true) (hother : (g.item other).isOpcodeItem = true)
    (hpos : (g.item id).pos = (g.item other).pos) : id = other := by
  by_contra hne
  rcases hg.ordered.precedes_or (lt_size_of_isOpcodeItem hid) (lt_size_of_isOpcodeItem hother) hne with
    hbefore | hbehind
  · exact UInt16.lt_irrefl _ (hpos ▸ hg.spaced _ _ hbefore hid hother)
  · exact UInt16.lt_irrefl _ (hpos ▸ hg.spaced _ _ hbehind hother hid)

theorem lt_of_findPos? (h : g.findPos? pos = some id) : id < g.size :=
  hg.ordered.lt_of_mem (hg.ordered.of_findPos? h).1

theorem lt_of_next? (hid : id < g.size) (h : g.next? id = some other) : other < g.size :=
  hg.ordered.lt_of_mem (hg.ordered.adjoins_next? hid h).precedes.right_mem

/-- The foremost item of a position opens no function, since the header stands there. -/
theorem place_of_findPos? (h : g.findPos? pos = some id) : g.Place id := by
  refine ⟨hg.lt_of_findPos? h, fun hrole => ?_⟩
  obtain ⟨header, behind, henclosed⟩ := hg.enclosed id hrole
  have hlt := hg.ordered.pos_lt_findPos? h henclosed.above.precedes
  rw [henclosed.posHeader, (hg.ordered.of_findPos? h).2] at hlt
  exact UInt16.lt_irrefl _ hlt

/-- What stands behind an item that is no statement opens no function. -/
theorem place_of_next? (hid : id < g.size) (hstatement : (g.item id).statement? = none)
    (h : g.next? id = some other) : g.Place other := by
  refine ⟨hg.lt_of_next? hid h, fun hrole => ?_⟩
  obtain ⟨header, behind, henclosed⟩ := hg.enclosed other hrole
  have hsame := henclosed.above.left_unique (hg.ordered.adjoins_next? hid h) hg.ordered.nodup
  rw [hsame] at hstatement
  have hsome := henclosed.statement
  rw [hstatement] at hsome
  cases hsome

/-- What stands before the foremost item of a position opens no function. -/
theorem place_of_prev? (hfind : g.findPos? pos = some id) (h : g.prev? id = some other) :
    g.Place other := by
  have hadjoins := hg.ordered.adjoins_prev? (hg.lt_of_findPos? hfind) h
  refine ⟨hg.ordered.lt_of_mem hadjoins.precedes.left_mem, fun hrole => ?_⟩
  obtain ⟨header, behind, henclosed⟩ := hg.enclosed other hrole
  have hlt := hg.ordered.pos_lt_findPos? hfind hadjoins.precedes
  have hnext := hg.ordered.next?_of_adjoins hadjoins
  rw [hg.ordered.next?_of_adjoins henclosed.below] at hnext
  rw [← henclosed.posBehind, Option.some.inj hnext, (hg.ordered.of_findPos? hfind).2] at hlt
  exact UInt16.lt_irrefl _ hlt

end Sound

/-! ## Growth -/

/-- The second graph is the first one with more items, among them the lines of blocks `lines`, oldest
first. -/
structure Widens (g : Graph) (lines : List (ItemId × StatementRole)) (g' : Graph) : Prop where
  sound : g'.Sound
  size : g.size ≤ g'.size
  vacant : g.size = 0 → g'.size = 0
  order : g.order.Sublist g'.order
  kept : ∀ id < g.size, (g.item id).Kept (g'.item id)
  fresh : ∀ id, g.size ≤ id → (g'.item id).isOpcodeItem = false
  entries : g'.entries = g.entries ++ lines
  headed : ∀ a id, g.blockRole? id = some (.opens .function) → Adjoins g.order a id →
    Adjoins g'.order a id

/-- The second graph is the first one with more items, none of them the boundary of a function. -/
structure Grows (g : Graph) (lines : List (ItemId × StatementRole)) (g' : Graph) : Prop
    extends Widens g lines g' where
  fronts : ∀ id, g.size ≤ id → (g'.item id).kind ≠ .functionStart
  backs : ∀ id, g.size ≤ id → id < g'.size → (g'.item id).kind ≠ .functionEnd

namespace Widens

variable {g g' g'' : Graph} {lines lines' : List (ItemId × StatementRole)} {id : ItemId}

theorem blockRole? (h : g.Widens lines g') (hid : id < g.size) : g'.blockRole? id = g.blockRole? id := by
  rw [Graph.blockRole?, (h.kept id hid).blockLine, Graph.blockRole?]

theorem lt_size (h : g.Widens lines g') (hid : id < g.size) : id < g'.size :=
  Nat.lt_of_lt_of_le hid h.size

theorem trans (h : g.Widens lines g') (h' : g'.Widens lines' g'') :
    g.Widens (lines ++ lines') g'' := by
  refine ⟨h'.sound, Nat.le_trans h.size h'.size, h'.vacant ∘ h.vacant, h.order.trans h'.order, fun id hid =>
    (h.kept id hid).trans (h'.kept id (h.lt_size hid)), fun id hid => ?_, ?_, fun a id hrole hadjoins => ?_⟩
  · by_cases hlt : id < g'.size
    · rw [(h'.kept id hlt).isOpcodeItem, h.fresh id hid]
    · exact h'.fresh id (Nat.le_of_not_lt hlt)
  · rw [h'.entries, h.entries, List.append_assoc]
  · have hadjoins' := h.headed a id hrole hadjoins
    refine h'.headed a id ?_ hadjoins'
    rw [h.blockRole? ?_, hrole]
    by_contra hge
    rw [Graph.blockRole?, item_of_size_le (Nat.le_of_not_lt hge)] at hrole
    cases hrole

theorem site (h : g.Widens lines g') (hid : g.Site id) : g'.Site id :=
  ⟨h.lt_size hid.lt_size, (h.kept id hid.lt_size).statement?_eq_none hid.statement,
    ((h.kept id hid.lt_size).isOpcode .call).trans hid.free⟩

theorem place (h : g.Widens lines g') (hid : g.Place id) : g'.Place id :=
  ⟨h.lt_size hid.lt_size, by rw [h.blockRole? hid.lt_size]; exact hid.apart⟩

theorem precedes (h : g.Widens lines g') {a b : ItemId} (hab : Precedes g.order a b) :
    Precedes g'.order a b := hab.mono h.order

/-- Behind a growth the listing may grow further without a line of a block. -/
theorem silent (h : g.Widens lines g') (h' : g'.Widens [] g'') : g.Widens lines g'' := by
  have htrans := h.trans h'
  rwa [List.append_nil] at htrans

end Widens

namespace Grows

variable {g g' g'' : Graph} {lines lines' : List (ItemId × StatementRole)} {id : ItemId}

theorem refl (hg : g.Sound) : g.Grows [] g :=
  ⟨⟨hg, Nat.le_refl _, id, List.Sublist.refl _, fun id _ => Item.Kept.refl _,
    fun id hid => by rw [item_of_size_le hid]; rfl, (List.append_nil _).symm, fun _ _ _ h => h⟩,
    fun id hid => by rw [item_of_size_le hid]; exact nofun,
    fun _ hid hlt => absurd hlt (Nat.not_lt.2 hid)⟩

theorem trans (h : g.Grows lines g') (h' : g'.Grows lines' g'') : g.Grows (lines ++ lines') g'' := by
  refine ⟨h.toWidens.trans h'.toWidens, fun id hid => ?_, fun id hid hlt' => ?_⟩ <;>
    by_cases hlt : id < g'.size
  · exact fun hkind => h.fronts id hid ((h'.kept id hlt).front.1 hkind)
  · exact h'.fronts id (Nat.le_of_not_lt hlt)
  · exact fun hkind => h.backs id hid hlt ((h'.kept id hlt).back.1 hkind)
  · exact h'.backs id (Nat.le_of_not_lt hlt) hlt'

theorem kind_functionStart (h : g.Grows lines g') (hkind : (g'.item id).kind = .functionStart) :
    (g.item id).kind = .functionStart := by
  by_cases hid : id < g.size
  · exact (h.kept id hid).front.1 hkind
  · exact absurd hkind (h.fronts id (Nat.le_of_not_lt hid))

theorem kind_functionEnd (h : g.Grows lines g') (hid : id < g'.size) (hkind : (g'.item id).kind = .functionEnd) :
    id < g.size ∧ (g.item id).kind = .functionEnd := by
  by_cases hold : id < g.size
  · exact ⟨hold, (h.kept id hold).back.1 hkind⟩
  · exact absurd hkind (h.backs id (Nat.le_of_not_lt hold) hid)

theorem silent (h : g.Grows lines g') (h' : g'.Grows [] g'') : g.Grows lines g'' := by
  have htrans := h.trans h'
  rwa [List.append_nil] at htrans

end Grows

/-! ## Changes of items -/

section Change

variable {g g' : Graph} {id site : ItemId} {f : Item → Item} {item : Item}

/-- Changes that keep what a sound listing is about keep it sound. -/
theorem Sound.congr (hg : g.Sound) (hordered : g'.Ordered) (horder : g'.order = g.order)
    (hcode : ∀ id, (g'.item id).code = (g.item id).code)
    (hstatement : ∀ id, (g'.item id).statement?.isSome = (g.item id).statement?.isSome)
    (hline : ∀ id, (g'.item id).blockLine? = (g.item id).blockLine?) : g'.Sound := by
  have hpos (id : ItemId) : (g'.item id).pos = (g.item id).pos := congrArg Prod.fst (hcode id)
  have hop (id : ItemId) : (g'.item id).isOpcodeItem = (g.item id).isOpcodeItem := by
    have hcode := congrArg (fun code => code.2.isSome) (hcode id)
    simpa [Item.code, Item.isOpcodeItem] using hcode
  refine ⟨hordered, fun a b hab ha hb => ?_, fun id line h => hg.letter id line ((hline id).symm.trans h),
    fun id hrole => ?_⟩
  · rw [horder] at hab
    rw [hop] at ha hb
    rw [hpos, hpos]
    exact hg.spaced a b hab ha hb
  · rw [blockRole?, hline] at hrole
    obtain ⟨header, behind, henclosed⟩ := hg.enclosed id hrole
    refine ⟨header, behind, ?_, ?_, ?_, ?_, ?_⟩
    · exact horder ▸ henclosed.above
    · exact horder ▸ henclosed.below
    · exact (hstatement header).trans henclosed.statement
    · rw [hpos, hpos]
      exact henclosed.posHeader
    · rw [hpos, hpos]
      exact henclosed.posBehind

/-- An item may be changed in what the passes do not keep. -/
theorem grows_modify (hg : g.Sound) (hf : (g.item id).Kept (f (g.item id)))
    (hpos : ∀ item, (f item).pos = item.pos) : g.Grows [] (g.modify id f) := by
  have hkept : ∀ other, (g.item other).Kept ((g.modify id f).item other) := by
    intro other
    rw [item_modify]
    split
    · rename_i h
      rw [h.1]
      exact hf
    · exact Item.Kept.refl _
  refine ⟨⟨hg.congr (hg.ordered.modify id hpos) rfl (fun other => (hkept other).code)
      (fun other => (hkept other).statement) fun other => (hkept other).blockLine,
    Nat.le_of_eq (size_modify g id f).symm, (size_modify g id f).trans, List.Sublist.refl _, fun other _ => hkept other,
    fun other hother => ?_, ?_, fun _ _ _ h => h⟩, fun other hother => ?_,
    fun other hother hlt => absurd ((size_modify g id f) ▸ hlt) (Nat.not_lt.2 hother)⟩
  · rw [item_of_size_le (by rwa [size_modify])]
    rfl
  · rw [List.append_nil]
    exact entries_congr (size_modify g id f) fun other _ => (hkept other).blockLine
  · rw [item_of_size_le (by rwa [size_modify])]
    exact fun hkind => nomatch hkind

theorem grows_markProcessed (hg : g.Sound) (hid : g.Site id) : g.Grows [] (g.markProcessed id) :=
  grows_modify hg (Item.Kept.markProcessed hid.statement hid.free) fun _ => rfl

theorem grows_markAll {ids : List ItemId} (hg : g.Sound) (hids : ∀ id ∈ ids, g.Site id) :
    g.Grows [] (g.modifyAll ids Item.markProcessed) := by
  induction ids generalizing g with
  | nil => exact Grows.refl hg
  | cons id rest ih =>
    have hfirst := grows_markProcessed hg (hids id List.mem_cons_self)
    exact hfirst.trans (ih hfirst.sound fun other hother =>
      hfirst.site (hids other (List.mem_cons_of_mem _ hother)))

/-! ## Insertions -/

/-- The line of a block that a new item is. -/
def linesOf (id : ItemId) (item : Item) : List (ItemId × StatementRole) :=
  (item.blockLine?.map fun line => (id, line.role)).toList

theorem item_insertBefore_of_lt (hid : id < g.size) (site : ItemId) (item : Item) :
    (g.insertBefore site item).item id = g.item id :=
  item_insertBefore_of_ne (Nat.ne_of_lt hid) site item

/-- A line that opens a function keeps its header when an item is put before another one, and stands before the new
item if that takes the place of what stood behind. -/
theorem Enclosed.insertBefore {header behind : ItemId} (h : g.Enclosed id header behind) (hg : g.Ordered)
    (hpos : item.pos = (g.item site).pos) (hne : site ≠ id) :
    ∃ behind', (g.insertBefore site item).Enclosed id header behind' := by
  have hid := item_insertBefore_of_lt (hg.lt_of_mem h.below.precedes.left_mem) site item
  have hheader := item_insertBefore_of_lt (hg.lt_of_mem h.above.precedes.left_mem) site item
  have habove : Adjoins (placeBefore g.size site g.order) header id := h.above.placeBefore hne
  by_cases hsame : site = behind
  · subst hsame
    refine ⟨g.size, habove, h.below.placeBefore_new hg.nodup, ?_, ?_, ?_⟩
    · rw [hheader, h.statement]
    · rw [hheader, hid, h.posHeader]
    · rw [item_insertBefore_new, hid, hpos, h.posBehind]
  · have hbehind := item_insertBefore_of_lt (hg.lt_of_mem h.below.precedes.right_mem) site item
    refine ⟨behind, habove, h.below.placeBefore hsame, ?_, ?_, ?_⟩
    · rw [hheader, h.statement]
    · rw [hheader, hid, h.posHeader]
    · rw [hbehind, hid, h.posBehind]

section Insertion

variable (hg : g.Sound) (hsite : g.Place site) (hpos : item.pos = (g.item site).pos)
  (hopcode : item.isOpcodeItem = false)
  (hletter : ∀ line, item.blockLine? = some line → line.text.toList.head? ≠ some 'l')
  (hheaded : item.blockLine?.map (·.role) = some (.opens .function) → ∃ header,
    Adjoins g.order header site ∧ (g.item header).statement?.isSome = true ∧
    (g.item header).pos = (g.item site).pos)

include hg hsite hpos hopcode hletter hheaded

theorem sound_insertBefore : (g.insertBefore site item).Sound := by
  have hmem : site ∈ g.order := (hg.ordered.mem_order site).2 hsite.lt_size
  have hordered := hg.ordered.insertBefore hsite.lt_size hpos
  have hnew := item_insertBefore_new g site item
  refine ⟨hordered, fun a b hab ha hb => ?_, fun id line hline => ?_, fun id hrole => ?_⟩
  · have hold {id : ItemId} (hid : id ∈ (g.insertBefore site item).order)
        (hop : ((g.insertBefore site item).item id).isOpcodeItem = true) : id ∈ g.order := by
      refine ((mem_placeBefore hmem).1 hid).resolve_left ?_
      rintro rfl
      rw [hnew, hopcode] at hop
      cases hop
    have haOld := hold hab.left_mem ha
    have hbOld := hold hab.right_mem hb
    rw [item_insertBefore_of_lt (hg.ordered.lt_of_mem haOld)] at ha ⊢
    rw [item_insertBefore_of_lt (hg.ordered.lt_of_mem hbOld)] at hb ⊢
    exact hg.spaced a b (hab.of_sublist hordered.nodup (sublist_placeBefore _ _ _) haOld hbOld) ha hb
  · by_cases hid : id = g.size
    · rw [hid, hnew] at hline
      exact hletter line hline
    · rw [item_insertBefore_of_ne hid] at hline
      exact hg.letter id line hline
  · by_cases hid : id = g.size
    · subst hid
      rw [blockRole?, hnew] at hrole
      obtain ⟨header, hadjoins, hstatement, hposHeader⟩ := hheaded hrole
      have hheader := item_insertBefore_of_lt (hg.ordered.lt_of_mem hadjoins.precedes.left_mem) site item
      refine ⟨header, site, hadjoins.placeBefore_new hg.ordered.nodup, adjoins_placeBefore_site hmem, ?_, ?_, ?_⟩
      · rw [hheader, hstatement]
      · rw [hheader, hnew, hposHeader, hpos]
      · rw [item_insertBefore_of_lt hsite.lt_size, hnew, hpos]
    · rw [blockRole?, item_insertBefore_of_ne hid] at hrole
      obtain ⟨header, behind, henclosed⟩ := hg.enclosed id hrole
      exact ⟨header, henclosed.insertBefore hg.ordered hpos fun hsame => hsite.apart (hsame ▸ hrole)⟩

/-- A new item may be put before another, at its position.  A line that opens a function is put behind its
header. -/
theorem widens_insertBefore : g.Widens (linesOf g.size item) (g.insertBefore site item) := by
  refine ⟨sound_insertBefore hg hsite hpos hopcode hletter hheaded, ?_,
    fun hempty => absurd hsite.lt_size (by simp [hempty]), sublist_placeBefore _ _ _, fun id hid => ?_,
    fun id hid => ?_, ?_, fun a id hrole hadjoins => ?_⟩
  · rw [size_insertBefore]
    exact Nat.le_succ _
  · rw [item_insertBefore_of_lt hid]
    exact Item.Kept.refl _
  · rcases Nat.eq_or_lt_of_le hid with rfl | hlt
    · rw [item_insertBefore_new, hopcode]
    · rw [item_of_size_le (by rw [size_insertBefore]; exact hlt)]
      rfl
  · unfold entries linesOf
    rw [size_insertBefore, List.range_succ, List.filterMap_append]
    refine congr (congrArg _ ?_) ?_
    · exact List.filterMap_congr fun id hid => by rw [item_insertBefore_of_lt (List.mem_range.1 hid)]
    · rw [List.filterMap_cons, item_insertBefore_new]
      cases item.blockLine? <;> rfl
  · exact hadjoins.placeBefore fun hsame => hsite.apart (hsame ▸ hrole)

end Insertion

theorem grows_of_widens_insertBefore {lines : List (ItemId × StatementRole)}
    (h : g.Widens lines (g.insertBefore site item))
    (hkind : item.kind ≠ .functionStart ∧ item.kind ≠ .functionEnd) :
    g.Grows lines (g.insertBefore site item) := by
  refine ⟨h, fun id hid => ?_, fun id hid hlt => ?_⟩
  · rcases Nat.eq_or_lt_of_le hid with rfl | hlt
    · rw [item_insertBefore_new]
      exact hkind.1
    · rw [item_of_size_le (by rw [size_insertBefore]; exact hlt)]
      exact fun hkind => nomatch hkind
  · rw [size_insertBefore] at hlt
    obtain rfl : g.size = id := Nat.le_antisymm hid (Nat.le_of_lt_succ hlt)
    rw [item_insertBefore_new]
    exact hkind.2

theorem widens_insertBefore_of_none (hg : g.Sound) (hsite : g.Place site) (item : Item)
    (hpos : item.pos = (g.item site).pos) (hopcode : item.isOpcodeItem = false)
    (hline : item.blockLine? = none) : g.Widens [] (g.insertBefore site item) := by
  have hwidens := widens_insertBefore hg hsite hpos hopcode
    (fun line h => by rw [hline] at h; cases h) (fun h => by rw [hline] at h; cases h)
  rwa [linesOf, hline] at hwidens

theorem grows_insertBefore_of_none (hg : g.Sound) (hsite : g.Place site) (item : Item)
    (hpos : item.pos = (g.item site).pos) (hopcode : item.isOpcodeItem = false)
    (hline : item.blockLine? = none) (hkind : item.kind ≠ .functionStart ∧ item.kind ≠ .functionEnd) :
    g.Grows [] (g.insertBefore site item) :=
  grows_of_widens_insertBefore (widens_insertBefore_of_none hg hsite item hpos hopcode hline) hkind

/-! ## Statements -/

theorem linesOf_statement (id : ItemId) (pos : UInt16) (statement : Statement) :
    linesOf id (.ofKind pos (.statement statement)) =
      if statement.role.isBlock then [(id, statement.role)] else [] := by
  cases h : statement.role.isBlock <;>
    simp [linesOf, Item.blockLine?, Item.ofKind, Item.statement?, Option.filter, h]

theorem blockLine?_statement {pos : UInt16} {statement line : Statement}
    (h : (Item.ofKind pos (.statement statement)).blockLine? = some line) :
    statement = line ∧ line.role.isBlock = true := by
  simpa only [Item.blockLine?, Item.ofKind, Item.statement?, Bool.false_eq_true, if_false,
    Option.filter_eq_some_iff, Option.some.injEq] using h

/-- Lines that may be put before any place: of the lines of blocks those that open no function, and they
begin with other letters than names of local variables. -/
structure Unlike (statement : Statement) : Prop where
  letter : statement.role.isBlock = true → statement.text.toList.head? ≠ some 'l'
  role : statement.role ≠ .opens .function

theorem unlike_of_not_isBlock {statement : Statement} (h : statement.role.isBlock = false) :
    Unlike statement := by
  refine ⟨fun hblock => ?_, fun hrole => ?_⟩
  · rw [h] at hblock
    cases hblock
  · rw [hrole] at h
    cases h

theorem unlike_plain (text : String) : Unlike (.plain text) := unlike_of_not_isBlock rfl

theorem grows_addStatement (hg : g.Sound) (hsite : g.Place site) {statement : Statement}
    (hunlike : Unlike statement) :
    g.Grows (if statement.role.isBlock then [(g.size, statement.role)] else [])
      (g.addStatement site statement) := by
  rw [← linesOf_statement g.size (g.item site).pos statement]
  refine grows_of_widens_insertBefore (widens_insertBefore hg hsite rfl rfl (fun line hline => ?_)
    fun hrole => ?_) ⟨nofun, nofun⟩
  · obtain ⟨rfl, hblock⟩ := blockLine?_statement hline
    exact hunlike.letter hblock
  · obtain ⟨line, hline, hrole⟩ := Option.map_eq_some_iff.1 hrole
    obtain ⟨rfl, -⟩ := blockLine?_statement hline
    exact absurd hrole hunlike.role

theorem grows_replaceByStatement (hg : g.Sound) (hsite : g.Site site) {statement : Statement}
    (hunlike : Unlike statement) :
    g.Grows (if statement.role.isBlock then [(g.size, statement.role)] else [])
      (g.replaceByStatement site statement) := by
  have hmarked := grows_markProcessed hg hsite
  have hsize : (g.markProcessed site).size = g.size := size_modify g site _
  have hadded := grows_addStatement hmarked.sound (hmarked.site hsite).place hunlike
  rw [hsize] at hadded
  exact hmarked.trans hadded

end Change

/-! ## Items that are marked on purpose -/

section Marks

variable {g g' : Graph} {id : ItemId} {ids : List ItemId} {lines : List (ItemId × StatementRole)}

@[simp] theorem size_markAll (g : Graph) (ids : List ItemId) :
    (g.modifyAll ids Item.markProcessed).size = g.size := by
  induction ids generalizing g with
  | nil => rfl
  | cons id rest ih => exact (ih _).trans (size_modify g id _)

@[simp] theorem order_markAll (g : Graph) (ids : List ItemId) :
    (g.modifyAll ids Item.markProcessed).order = g.order := by
  induction ids generalizing g with
  | nil => rfl
  | cons id rest ih => exact ih _

theorem item_markAll (g : Graph) (ids : List ItemId) (id : ItemId) :
    (g.modifyAll ids Item.markProcessed).item id =
      if id ∈ ids ∧ id < g.size then (g.item id).markProcessed else g.item id := by
  induction ids generalizing g with
  | nil => simp [modifyAll]
  | cons other rest ih =>
    change ((g.modify other Item.markProcessed).modifyAll rest Item.markProcessed).item id = _
    rw [ih, size_modify, item_modify]
    by_cases hid : id = other
    · subst hid
      by_cases hlt : id < g.size <;> by_cases hrest : id ∈ rest <;> simp [hlt, hrest, Item.markProcessed]
    · simp [hid]

theorem item_markAll_of_notMem (g : Graph) (h : id ∉ ids) :
    (g.modifyAll ids Item.markProcessed).item id = g.item id :=
  (item_markAll g ids id).trans (if_neg fun hmem => h hmem.1)

/-- What a mark keeps of every item it keeps of the items of a graph. -/
theorem markAll_keeps {α : Type} {p : Item → α} (hp : ∀ item : Item, p item.markProcessed = p item) (g : Graph)
    (ids : List ItemId) (id : ItemId) : p ((g.modifyAll ids Item.markProcessed).item id) = p (g.item id) := by
  rw [item_markAll]
  split
  · exact hp _
  · rfl

theorem blockLine?_markAll (hids : ∀ id ∈ ids, (g.item id).statement? = none) (id : ItemId) :
    ((g.modifyAll ids Item.markProcessed).item id).blockLine? = (g.item id).blockLine? := by
  rw [item_markAll]
  split
  · rename_i h
    exact (Item.blockLine?_of_processed rfl).trans (Item.blockLine?_of_statement? (hids id h.1)).symm
  · rfl

/-- Items that are no statements may be marked whatever they are; only then they are not kept. -/
theorem sound_markAll (hg : g.Sound) (hids : ∀ id ∈ ids, (g.item id).statement? = none) :
    (g.modifyAll ids Item.markProcessed).Sound :=
  hg.congr (Ordered.modifyAll (f := Item.markProcessed) (fun _ => rfl) ids hg.ordered) (order_markAll g ids)
    (markAll_keeps (fun _ => rfl) g ids)
    (markAll_keeps (p := fun item => item.statement?.isSome) (fun _ => rfl) g ids) (blockLine?_markAll hids)

/-- A listing grows in the same way when items of it have been marked before. -/
theorem Grows.markAll (h : g.Grows lines g') (hids : ∀ id ∈ ids, id < g.size)
    (hstatement : ∀ id ∈ ids, (g.item id).statement? = none) :
    (g.modifyAll ids Item.markProcessed).Grows lines (g'.modifyAll ids Item.markProcessed) := by
  have hstatement' : ∀ id ∈ ids, (g'.item id).statement? = none := fun id hid =>
    (h.kept id (hids id hid)).statement?_eq_none (hstatement id hid)
  have hkind := markAll_keeps (p := Item.kind) (fun _ => rfl) g' ids
  refine ⟨⟨sound_markAll h.sound hstatement', ?_, ?_, ?_, fun id hid => ?_, fun id hid => ?_, ?_,
    fun a id hrole hadjoins => ?_⟩, fun id hid => ?_, fun id hid hlt => ?_⟩
  · rw [size_markAll, size_markAll]
    exact h.size
  · rw [size_markAll, size_markAll]
    exact h.vacant
  · rw [order_markAll, order_markAll]
    exact h.order
  · rw [size_markAll] at hid
    have hkept := h.kept id hid
    by_cases hmem : id ∈ ids
    · rw [item_markAll, if_pos ⟨hmem, hid⟩, item_markAll, if_pos ⟨hmem, h.lt_size hid⟩]
      exact hkept.markBoth
    · rw [item_markAll_of_notMem _ hmem, item_markAll_of_notMem _ hmem]
      exact hkept
  · rw [size_markAll] at hid
    rw [Item.isOpcodeItem, Item.opcodeItem?, hkind]
    exact h.fresh id hid
  · rw [entries_congr (size_markAll g' ids) fun id _ => blockLine?_markAll hstatement' id,
      entries_congr (size_markAll g ids) fun id _ => blockLine?_markAll hstatement id, h.entries]
  · rw [order_markAll] at hadjoins ⊢
    rw [blockRole?, blockLine?_markAll hstatement] at hrole
    exact h.headed a id hrole hadjoins
  · rw [size_markAll] at hid
    rw [hkind]
    exact h.fronts id hid
  · rw [size_markAll] at hid hlt
    rw [hkind]
    exact h.backs id hid hlt

end Marks

end Graph

end Parley
