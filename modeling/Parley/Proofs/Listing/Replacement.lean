import Parley.Proofs.Listing.Order
import Parley.Decompile.State
import Mathlib.Data.List.Basic
set_option autoImplicit false

/-!
# Replacement of items

A pass puts a new item before another one and marks those that the new one stands for as replaced.  What
later passes see of an item is its face: whether it is marked and what it is.  A replaced item has none,
unless it is a statement.  `Replaced` says that one graph comes from another by such a replacement;
`Replaced.shown` says what it does to the faces along the listing.
-/

namespace Parley

/-! ## Faces -/

/-- What later passes see of an item. -/
def Item.face? (item : Item) : Option (Bool × ItemKind) :=
  if item.processed && item.statement?.isNone then none else some (item.processed, item.kind)

namespace Item

theorem face?_of_open {item : Item} (h : item.processed = false) :
    item.face? = some (false, item.kind) := by
  simp [face?, h]

theorem face?_eq_open {item : Item} {kind : ItemKind} :
    item.face? = some (false, kind) ↔ item.processed = false ∧ item.kind = kind := by
  unfold face?
  cases item.processed <;> cases item.statement? <;> simp

theorem face?_eq_none {item : Item} :
    item.face? = none ↔ item.processed = true ∧ item.statement? = none := by
  unfold face?
  cases item.processed <;> cases item.statement? <;> simp

theorem face?_markProcessed {item : Item} (h : item.statement? = none) :
    item.markProcessed.face? = none :=
  face?_eq_none.2 ⟨rfl, h⟩

/-- The face of an item does not show its label. -/
theorem face?_congr {a b : Item} (hprocessed : a.processed = b.processed) (hkind : a.kind = b.kind) :
    a.face? = b.face? := by
  have hstatement : a.statement? = b.statement? := by rw [statement?, hkind, ← statement?]
  rw [face?, face?, hprocessed, hkind, hstatement]

end Item

namespace Graph

/-- The face of the item with an id. -/
def face? (g : Graph) (id : ItemId) : Option (Bool × ItemKind) := (g.item id).face?

/-- The faces along a list of items. -/
def shown (g : Graph) (ids : List ItemId) : List (Bool × ItemKind) := ids.filterMap g.face?

theorem shown_append (g : Graph) (ids others : List ItemId) :
    g.shown (ids ++ others) = g.shown ids ++ g.shown others := by
  rw [shown, List.filterMap_append]
  rfl

theorem shown_congr {g g' : Graph} {ids : List ItemId} (h : ∀ id ∈ ids, g'.face? id = g.face? id) :
    g'.shown ids = g.shown ids :=
  List.filterMap_congr h

theorem shown_eq_nil {g : Graph} {ids : List ItemId} (h : ∀ id ∈ ids, g.face? id = none) :
    g.shown ids = [] :=
  List.filterMap_eq_nil_iff.2 h

/-! ## Changes -/

/-- Only the items of a list have other faces than before, and the order of the items is the same. -/
structure SameBut (changed : List ItemId) (g g' : Graph) : Prop where
  order : g'.order = g.order
  size : g'.size = g.size
  ordered : g.Ordered → g'.Ordered
  faces : ∀ id, id ∉ changed → g'.face? id = g.face? id

theorem SameBut.refl (changed : List ItemId) (g : Graph) : SameBut changed g g :=
  ⟨rfl, rfl, id, fun _ _ => rfl⟩

theorem SameBut.trans {changed : List ItemId} {g g' g'' : Graph} (h : SameBut changed g g')
    (h' : SameBut changed g' g'') : SameBut changed g g'' :=
  ⟨h'.order.trans h.order, h'.size.trans h.size, h'.ordered ∘ h.ordered,
    fun id hid => (h'.faces id hid).trans (h.faces id hid)⟩

theorem sameBut_modify {changed : List ItemId} {id : ItemId} (hid : id ∈ changed) (g : Graph)
    {f : Item → Item} (hf : ∀ item, (f item).pos = item.pos) : SameBut changed g (g.modify id f) := by
  refine ⟨rfl, size_modify g id f, fun hg => hg.modify id hf, fun other hother => ?_⟩
  have hne : other ≠ id := fun h => hother (h ▸ hid)
  rw [face?, face?, item_modify_of_ne hne]

theorem sameBut_markProcessed {changed : List ItemId} {id : ItemId} (hid : id ∈ changed) (g : Graph) :
    SameBut changed g (g.markProcessed id) := by
  refine sameBut_modify hid g ?_
  exact fun _ => rfl

/-- A change of labels alone. -/
theorem sameBut_modify_label (changed : List ItemId) (g : Graph) (id : ItemId) {f : Item → Item}
    (hf : ∀ item, (f item).pos = item.pos ∧ (f item).processed = item.processed ∧
      (f item).kind = item.kind) : SameBut changed g (g.modify id f) := by
  refine ⟨rfl, size_modify g id f, fun hg => hg.modify id fun item => (hf item).1, fun other _ => ?_⟩
  exact modify_keeps (p := Item.face?)
    (fun item => Item.face?_congr (hf item).2.1 (hf item).2.2) g id other

theorem sameBut_modifyAll {changed ids : List ItemId} (hids : ∀ id ∈ ids, id ∈ changed) (g : Graph)
    {f : Item → Item} (hf : ∀ item, (f item).pos = item.pos) :
    SameBut changed g (g.modifyAll ids f) := by
  induction ids generalizing g with
  | nil => exact SameBut.refl changed g
  | cons id rest ih =>
    exact (sameBut_modify (hids id List.mem_cons_self) g hf).trans
      (ih (fun other hother => hids other (List.mem_cons_of_mem _ hother)) _)

/-- Marking items as replaced. -/
theorem sameBut_markAll (ids : List ItemId) (g : Graph) :
    SameBut ids g (g.modifyAll ids Item.markProcessed) := by
  refine sameBut_modifyAll (fun _ hid => hid) g ?_
  exact fun _ => rfl

/-- Marked items that are no statements have no face. -/
theorem face?_modifyAll_markProcessed {ids : List ItemId} {id : ItemId} {g : Graph} (hid : id ∈ ids)
    (hsize : id < g.size) (h : (g.item id).statement? = none) :
    (g.modifyAll ids Item.markProcessed).face? id = none := by
  have hkeep : ∀ (ids : List ItemId) (g : Graph), g.face? id = none →
      (g.modifyAll ids Item.markProcessed).face? id = none := by
    intro ids
    induction ids with
    | nil => exact fun _ h => h
    | cons other rest ih =>
      intro g hg
      refine ih _ ?_
      rw [face?, item_modify]
      split
      · rename_i heq
        rw [← heq.1]
        exact Item.face?_markProcessed (Item.face?_eq_none.1 hg).2
      · exact hg
  induction ids generalizing g with
  | nil => cases hid
  | cons other rest ih =>
    by_cases hother : id = other
    · subst hother
      refine hkeep rest _ ?_
      rw [face?, item_modify_self hsize]
      exact Item.face?_markProcessed h
    · refine ih ((List.mem_cons.1 hid).resolve_left hother) ?_ ?_
      · rw [size_modify]
        exact hsize
      · rw [item_modify_of_ne hother]
        exact h

/-! ## Insertions -/

/-- A new open item stands before another one. -/
structure Inserted (g g' : Graph) (site : ItemId) (kind : ItemKind) : Prop where
  order : g'.order = placeBefore g.size site g.order
  size : g'.size = g.size + 1
  ordered : g.Ordered → g'.Ordered
  new : g'.face? g.size = some (false, kind)
  items : ∀ id, id ≠ g.size → g'.item id = g.item id

theorem inserted_insertBefore {g : Graph} {site : ItemId} (hsite : site < g.size) (item : Item)
    (hpos : item.pos = (g.item site).pos) (hopen : item.processed = false) :
    Inserted g (g.insertBefore site item) site item.kind where
  order := order_insertBefore g site item
  size := size_insertBefore g site item
  ordered hg := hg.insertBefore hsite hpos
  new := by
    rw [face?, item_insertBefore_new]
    exact Item.face?_of_open hopen
  items _ h := item_insertBefore_of_ne h site item

/-! ## Replacements -/

/-- A new open item stands before another one, and the items of a list have lost their faces. -/
structure Replaced (g g' : Graph) (site : ItemId) (consumed : List ItemId) (kind : ItemKind) :
    Prop where
  order : g'.order = placeBefore g.size site g.order
  ordered : g'.Ordered
  new : g'.face? g.size = some (false, kind)
  gone : ∀ id ∈ consumed, g'.face? id = none
  kept : ∀ id, id ∉ consumed → id ≠ g.size → g'.face? id = g.face? id

theorem Replaced.intro {g g₁ g₂ g₃ : Graph} {site : ItemId} {consumed : List ItemId}
    {kind : ItemKind} (hg : g.Ordered) (hnew : g.size ∉ consumed) (h₁ : SameBut consumed g g₁)
    (h₂ : Inserted g₁ g₂ site kind) (h₃ : SameBut consumed g₂ g₃)
    (hgone : ∀ id ∈ consumed, g₃.face? id = none) : Replaced g g₃ site consumed kind where
  order := by rw [h₃.order, h₂.order, h₁.order, h₁.size]
  ordered := h₃.ordered (h₂.ordered (h₁.ordered hg))
  new := by
    rw [h₃.faces _ hnew, ← h₁.size]
    exact h₂.new
  gone := hgone
  kept id hid hne := by
    rw [h₃.faces id hid, face?, h₂.items id (by rwa [h₁.size])]
    exact h₁.faces id hid

/-- Changes of consumed items before and after a replacement belong to it if they end without faces. -/
theorem Replaced.widen {g g₁ g₂ g₃ : Graph} {site : ItemId} {consumed more : List ItemId}
    {kind : ItemKind} (hg₁ : SameBut more g g₁) (h : Replaced g₁ g₂ site consumed kind)
    (hg₃ : SameBut more g₂ g₃) (hsub : ∀ id ∈ consumed, id ∈ more) (hnew : g.size ∉ more)
    (hgone : ∀ id ∈ more, g₃.face? id = none) : Replaced g g₃ site more kind where
  order := by rw [hg₃.order, h.order, hg₁.order, hg₁.size]
  ordered := hg₃.ordered h.ordered
  new := by
    rw [hg₃.faces _ hnew, ← hg₁.size]
    exact h.new
  gone := hgone
  kept id hid hne := by
    rw [hg₃.faces id hid, h.kept id (fun hmem => hid (hsub id hmem)) (by rwa [hg₁.size])]
    exact hg₁.faces id hid

/-- An item marked before a replacement is consumed by it. -/
theorem Replaced.of_marked {g g' : Graph} {site other : ItemId} {consumed : List ItemId}
    {kind : ItemKind} (hsite : site < g.size) (hother : other < g.size) (hne : site ≠ other)
    (hstatement : (g.item other).statement? = none)
    (h : Replaced (g.markProcessed other) g' site [site] kind)
    (hconsumed : ∀ id, id ∈ consumed ↔ id = site ∨ id = other) :
    Replaced g g' site consumed kind := by
  refine h.widen (sameBut_markProcessed ((hconsumed other).2 (Or.inr rfl)) g) (SameBut.refl _ _)
    ?_ ?_ ?_
  · intro id hid
    exact (hconsumed id).2 (Or.inl (List.mem_singleton.1 hid))
  · rw [hconsumed]
    rintro (rfl | rfl)
    · exact Nat.lt_irrefl _ hsite
    · exact Nat.lt_irrefl _ hother
  · intro id hid
    rcases (hconsumed id).1 hid with rfl | rfl
    · exact h.gone _ List.mem_cons_self
    · have hsize : id ≠ (g.markProcessed id).size := by
        rw [markProcessed, size_modify]
        exact Nat.ne_of_lt hother
      rw [h.kept id (by simpa using hne.symm) hsize, face?, markProcessed, item_modify_self hother]
      exact Item.face?_markProcessed hstatement

/-- The place of an item that is no statement is taken by a new item. -/
theorem replaced_insertBefore {g : Graph} (hg : g.Ordered) {site : ItemId} (hsite : site < g.size)
    {f : Item → Item} (hf : ∀ item, (f item).pos = item.pos)
    (hgone : (f (g.item site)).face? = none) (item : Item) (hpos : item.pos = (g.item site).pos)
    (hopen : item.processed = false) :
    Replaced g ((g.modify site f).insertBefore site item) site [site] item.kind := by
  have hsize : site < (g.modify site f).size := by
    rw [size_modify]
    exact hsite
  have hpos' : item.pos = ((g.modify site f).item site).pos := by
    rw [item_modify_self hsite, hf]
    exact hpos
  have hinserted := inserted_insertBefore hsize item hpos' hopen
  refine Replaced.intro hg ?_ (sameBut_modify List.mem_cons_self g hf) hinserted
    (SameBut.refl _ _) ?_
  · rw [List.mem_singleton]
    exact (Nat.ne_of_lt hsite).symm
  · intro id hid
    rw [List.mem_singleton.1 hid, face?, hinserted.items site (Nat.ne_of_lt hsize),
      item_modify_self hsite]
    exact hgone

/-- Put an expression in the place of an item. -/
def putExpression (g : Graph) (site : ItemId) (expression : Expr) : Graph :=
  (g.modify site fun old => old.withoutLabel.markProcessed).insertBefore site
    ⟨(g.item site).pos, (g.item site).label, (g.item site).xrefCount, false, .expression expression⟩

/-- Put an operation in the place of an item. -/
def putOperation (g : Graph) (site : ItemId) (operation : Operation) : Graph :=
  (g.markProcessed site).insertBefore site (.ofKind (g.item site).pos (.operation operation))

section Put

variable {g : Graph} {site : ItemId}

theorem replaced_putExpression (hg : g.Ordered) (hsite : site < g.size)
    (hstatement : (g.item site).statement? = none) (expression : Expr) :
    Replaced g (g.putExpression site expression) site [site] (.expression expression) := by
  refine replaced_insertBefore hg hsite ?_ ?_ ⟨_, _, _, false, .expression expression⟩ rfl rfl
  · exact fun _ => rfl
  · exact Item.face?_markProcessed hstatement

theorem replaced_putOperation (hg : g.Ordered) (hsite : site < g.size)
    (hstatement : (g.item site).statement? = none) (operation : Operation) :
    Replaced g (g.putOperation site operation) site [site] (.operation operation) := by
  refine replaced_insertBefore hg hsite ?_ ?_ (.ofKind _ (.operation operation)) rfl rfl
  · exact fun _ => rfl
  · exact Item.face?_markProcessed hstatement

theorem replaced_replaceByStatement (hg : g.Ordered) (hsite : site < g.size)
    (hstatement : (g.item site).statement? = none) (statement : Statement) :
    Replaced g (g.replaceByStatement site statement) site [site] (.statement statement) := by
  have hpos : ((g.markProcessed site).item site).pos = (g.item site).pos := by
    rw [markProcessed, item_modify_self hsite]
    rfl
  refine replaced_insertBefore hg hsite ?_ ?_ (.ofKind _ (.statement statement)) hpos rfl
  · exact fun _ => rfl
  · exact Item.face?_markProcessed hstatement

theorem size_putOperation (operation : Operation) :
    (g.putOperation site operation).size = g.size + 1 := by
  simp [putOperation, markProcessed]

/-- Items are the same instructions and statements with an operation in front of them. -/
theorem putOperation_keeps {α : Type} {p : Item → α} (hp : ∀ item, p item.markProcessed = p item)
    {id : ItemId} (hid : id < g.size) (operation : Operation) :
    p ((g.putOperation site operation).item id) = p (g.item id) := by
  have hne : id ≠ (g.markProcessed site).size := by
    rw [markProcessed, size_modify]
    exact Nat.ne_of_lt hid
  rw [putOperation, item_insertBefore_of_ne hne]
  exact modify_keeps hp g site id

end Put

theorem placeBefore_append_of_mem {new site : ItemId} {ids : List ItemId} (h : site ∈ ids)
    (others : List ItemId) :
    placeBefore new site (ids ++ others) = placeBefore new site ids ++ others := by
  obtain ⟨front, behind, rfl, hfront⟩ := List.eq_append_cons_of_mem h
  rw [placeBefore_split hfront, List.append_assoc, List.cons_append, placeBefore_split hfront,
    List.append_assoc]
  rfl

theorem placeBefore_append_of_notMem {new site : ItemId} {ids : List ItemId} (h : site ∉ ids)
    (others : List ItemId) :
    placeBefore new site (ids ++ others) = ids ++ placeBefore new site others := by
  induction ids with
  | nil => rfl
  | cons x rest ih =>
    rw [List.mem_cons, not_or] at h
    rw [List.cons_append, placeBefore, if_neg (Ne.symm h.1), ih h.2]
    rfl

/-- A block of a listing whose items are replaced shows nothing but the new item. -/
theorem Replaced.shown {g g' : Graph} {site : ItemId} {consumed : List ItemId} {kind : ItemKind}
    (h : Replaced g g' site consumed kind) (front block rest : List ItemId) (hsite : site ∈ block)
    (hfront : ∀ id ∈ front, id ∉ consumed ∧ id ≠ g.size)
    (hblock : ∀ id ∈ block, id ≠ g.size ∧ (id ∉ consumed → g.face? id = none))
    (hrest : ∀ id ∈ rest, id ∉ consumed ∧ id ≠ g.size) (hnot : site ∉ front) :
    g'.shown (placeBefore g.size site (front ++ (block ++ rest))) =
      g.shown front ++ (false, kind) :: g.shown rest := by
  have hkept : ∀ ids : List ItemId, (∀ id ∈ ids, id ∉ consumed ∧ id ≠ g.size) →
      g'.shown ids = g.shown ids := fun ids hids =>
    shown_congr fun id hid => h.kept id (hids id hid).1 (hids id hid).2
  have hhidden : ∀ id ∈ block, g'.face? id = none := by
    intro id hid
    by_cases hc : id ∈ consumed
    · exact h.gone id hc
    · rw [h.kept id hc (hblock id hid).1]
      exact (hblock id hid).2 hc
  rw [placeBefore_append_of_notMem hnot, placeBefore_append_of_mem hsite]
  obtain ⟨before, behind, rfl, hbefore⟩ := List.eq_append_cons_of_mem hsite
  rw [placeBefore_split hbefore, shown_append, shown_append, shown_append, hkept front hfront,
    hkept rest hrest]
  rw [shown_eq_nil fun id hid => hhidden id (List.mem_append_left _ hid)]
  have hnewShown : g'.shown (g.size :: site :: behind) = [(false, kind)] := by
    have hnil : g'.shown (site :: behind) = [] :=
      shown_eq_nil fun id hid => hhidden id (List.mem_append_right _ hid)
    unfold Graph.shown at hnil ⊢
    rw [List.filterMap_cons, h.new]
    exact congrArg _ hnil
  rw [hnewShown]
  rfl

end Graph

namespace Pass

theorem addExpression_apply (site : ItemId) (expression : Expr) (d : Decompilation) :
    addExpression site expression d =
      .ok d.graph.size (d.onGraph (·.putExpression site expression)) := rfl

theorem addOperation_apply (site : ItemId) (operation : Operation) (d : Decompilation) :
    addOperation site operation d =
      .ok d.graph.size (d.onGraph (·.putOperation site operation)) := rfl

theorem replaceByStatement_apply (site : ItemId) (statement : Statement) (d : Decompilation) :
    replaceByStatement site statement d =
      .ok d.graph.size (d.onGraph (·.replaceByStatement site statement)) := rfl

end Pass

end Parley
