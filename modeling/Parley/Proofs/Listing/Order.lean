import Parley.Listing.Graph
import Mathlib.Data.List.Find
set_option autoImplicit false

/-!
# The order of a listing

A graph is `Ordered` when every item stands in the listing exactly once, positions never decrease along
the listing, and `findPos?` finds the foremost item of a position.  Changes that keep positions and
insertions that take the position of the item behind them keep a graph ordered.  The neighbours of an
item are read off a splitting of the order at that item.
-/

namespace Parley.Graph

/-- The ids of a listing name its items, each of them once and in the order of their positions. -/
structure Ordered (g : Graph) : Prop where
  nodup : g.order.Nodup
  mem_order : ∀ id, id ∈ g.order ↔ id < g.size
  sorted : g.order.Pairwise fun a b => (g.item a).pos ≤ (g.item b).pos
  findPos : ∀ pos, g.findPos? pos = g.order.find? fun id => (g.item id).pos = pos

/-- What `findPos?` finds stands in the listing at the position. -/
theorem Ordered.of_findPos? {g : Graph} (hg : g.Ordered) {pos : UInt16} {id : ItemId}
    (h : g.findPos? pos = some id) : id ∈ g.order ∧ (g.item id).pos = pos := by
  rw [hg.findPos] at h
  exact ⟨List.mem_of_find?_eq_some h, by simpa using List.find?_some h⟩

/-! ## Items after a change -/

@[simp] theorem size_modify (g : Graph) (id : ItemId) (f : Item → Item) :
    (g.modify id f).size = g.size := by
  simp [modify, size]

@[simp] theorem order_modify (g : Graph) (id : ItemId) (f : Item → Item) :
    (g.modify id f).order = g.order := rfl

@[simp] theorem findPos?_modify (g : Graph) (id : ItemId) (f : Item → Item) (pos : UInt16) :
    (g.modify id f).findPos? pos = g.findPos? pos := rfl

theorem item_modify_self {g : Graph} {id : ItemId} (h : id < g.size) (f : Item → Item) :
    (g.modify id f).item id = f (g.item id) := by
  have hsize : id < g.items.size := h
  simp [item, modify, hsize, Array.getElem_modify]

theorem item_modify_of_ne {g : Graph} {id other : ItemId} (h : other ≠ id) (f : Item → Item) :
    (g.modify id f).item other = g.item other := by
  simp only [item, modify, Array.getD_eq_getD_getElem?]
  rw [Array.getElem?_modify, if_neg (Ne.symm h)]

/-- An item after a change is what it was or what the change makes of it. -/
theorem item_modify (g : Graph) (id other : ItemId) (f : Item → Item) :
    (g.modify id f).item other =
      if other = id ∧ id < g.size then f (g.item id) else g.item other := by
  by_cases hid : other = id
  · subst hid
    by_cases hlt : other < g.size
    · rw [item_modify_self hlt, if_pos ⟨rfl, hlt⟩]
    · rw [if_neg (fun h => hlt h.2)]
      have hsize : g.items.size ≤ other := Nat.le_of_not_lt hlt
      simp [item, modify, hsize]
  · rw [item_modify_of_ne hid, if_neg (fun h => hid h.1)]

/-- What a change keeps of every item it keeps of the items of a graph. -/
theorem modify_keeps {α : Type} {p : Item → α} {f : Item → Item} (hf : ∀ item, p (f item) = p item)
    (g : Graph) (id other : ItemId) : p ((g.modify id f).item other) = p (g.item other) := by
  rw [item_modify]
  split
  · rename_i h
    rw [hf, h.1]
  · rfl

/-! ## Items after an insertion -/

@[simp] theorem size_insertBefore (g : Graph) (site : ItemId) (item : Item) :
    (g.insertBefore site item).size = g.size + 1 := by
  simp [insertBefore, size]

@[simp] theorem order_insertBefore (g : Graph) (site : ItemId) (item : Item) :
    (g.insertBefore site item).order = placeBefore g.size site g.order := rfl

theorem item_insertBefore_new (g : Graph) (site : ItemId) (item : Item) :
    (g.insertBefore site item).item g.size = item := by
  simp [insertBefore, Graph.item, size]

theorem item_insertBefore_of_ne {g : Graph} {id : ItemId} (h : id ≠ g.size) (site : ItemId)
    (item : Item) : (g.insertBefore site item).item id = g.item id := by
  have hsize : id ≠ g.items.size := h
  simp only [insertBefore, Graph.item, Array.getD_eq_getD_getElem?, Array.getElem?_push]
  rw [if_neg hsize]

/-! ## Splittings of the order -/

theorem placeBefore_split {new site : ItemId} {front behind : List ItemId} (h : site ∉ front) :
    placeBefore new site (front ++ site :: behind) = front ++ new :: site :: behind := by
  induction front with
  | nil => simp [placeBefore]
  | cons x front ih =>
    rw [List.mem_cons, not_or] at h
    rw [List.cons_append, placeBefore, if_neg (Ne.symm h.1), ih h.2]
    rfl

theorem placeBefore_of_notMem {new site : ItemId} {order : List ItemId} (h : site ∉ order) :
    placeBefore new site order = order := by
  induction order with
  | nil => rfl
  | cons x rest ih =>
    rw [List.mem_cons, not_or] at h
    rw [placeBefore, if_neg (Ne.symm h.1), ih h.2]

/-- An insertion leaves the items there before in their order. -/
theorem sublist_placeBefore (new site : ItemId) (order : List ItemId) :
    order.Sublist (placeBefore new site order) := by
  induction order with
  | nil => exact List.nil_sublist _
  | cons x rest ih =>
    rw [placeBefore]
    split
    · exact List.sublist_cons_self _ _
    · exact ih.cons_cons x

theorem mem_placeBefore {new site id : ItemId} {order : List ItemId} (h : site ∈ order) :
    id ∈ placeBefore new site order ↔ id = new ∨ id ∈ order := by
  obtain ⟨front, behind, rfl, hfront⟩ := List.eq_append_cons_of_mem h
  rw [placeBefore_split hfront]
  simp only [List.mem_append, List.mem_cons]
  grind

theorem nodup_placeBefore {new site : ItemId} {order : List ItemId} (h : order.Nodup)
    (hnew : new ∉ order) : (placeBefore new site order).Nodup := by
  by_cases hsite : site ∈ order
  · obtain ⟨front, behind, rfl, hfront⟩ := List.eq_append_cons_of_mem hsite
    rw [placeBefore_split hfront]
    simp only [List.nodup_append, List.nodup_cons, List.mem_append, List.mem_cons] at h hnew ⊢
    grind
  · rw [placeBefore_of_notMem hsite]
    exact h

/-- A relation along a list holds after an insertion if the new id is related to others as the one behind
it is. -/
theorem pairwise_placeBefore {r : ItemId → ItemId → Prop} {new site : ItemId}
    {order : List ItemId} (h : order.Pairwise r) (hsite : r new site)
    (hleft : ∀ a ∈ order, r a site → r a new) (hright : ∀ b ∈ order, r site b → r new b) :
    (placeBefore new site order).Pairwise r := by
  induction order with
  | nil => exact List.Pairwise.nil
  | cons x rest ih =>
    rw [List.pairwise_cons] at h
    rw [placeBefore]
    split
    · rename_i hx
      subst hx
      refine List.pairwise_cons.2 ⟨?_, List.pairwise_cons.2 h⟩
      intro b hb
      rcases List.mem_cons.1 hb with rfl | hb
      · exact hsite
      · exact hright b (List.mem_cons_of_mem _ hb) (h.1 b hb)
    · have hrest := ih h.2 (fun a ha => hleft a (List.mem_cons_of_mem _ ha))
        (fun b hb => hright b (List.mem_cons_of_mem _ hb))
      refine List.pairwise_cons.2 ⟨?_, hrest⟩
      intro b hb
      by_cases hmem : site ∈ rest
      · rcases (mem_placeBefore hmem).1 hb with rfl | hb
        · exact hleft x List.mem_cons_self (h.1 site hmem)
        · exact h.1 b hb
      · rw [placeBefore_of_notMem hmem] at hb
        exact h.1 b hb

/-- What a search finds after an insertion of an id that it takes for the one behind it. -/
theorem find?_placeBefore {p : ItemId → Bool} {new site : ItemId} (h : p new = p site)
    (order : List ItemId) :
    (placeBefore new site order).find? p =
      if order.find? p = some site then some new else order.find? p := by
  induction order with
  | nil => simp [placeBefore]
  | cons x rest ih =>
    rw [placeBefore]
    split
    · rename_i hx
      subst hx
      cases hp : p x with
      | true => simp [hp, h]
      | false =>
        have hne : rest.find? p ≠ some x := by
          intro hfound
          rw [List.find?_some hfound] at hp
          exact Bool.noConfusion hp
        simp [hp, h, hne]
    · rename_i hx
      cases hp : p x with
      | true => simp [hp, hx]
      | false => simp [hp, ih]

section Split

variable {g : Graph} {id : ItemId} {front behind : List ItemId}

theorem startingAt_split (horder : g.order = front ++ id :: behind) (h : id ∉ front) :
    g.startingAt id = id :: behind := by
  rw [startingAt, horder, List.dropWhile_append_of_pos]
  · simp
  · intro x hx
    have hne : x ≠ id := fun he => h (he ▸ hx)
    simpa using hne

theorem after_split (horder : g.order = front ++ id :: behind) (h : id ∉ front) :
    g.after id = behind := by
  rw [after, startingAt_split horder h, List.tail_cons]

theorem before_split (horder : g.order = front ++ id :: behind) (h : id ∉ front) :
    g.before id = front.reverse := by
  rw [before_eq, horder, List.takeWhile_append_of_pos]
  · simp
  · intro x hx
    have hne : x ≠ id := fun he => h (he ▸ hx)
    simpa using hne

theorem next?_split (horder : g.order = front ++ id :: behind) (h : id ∉ front) :
    g.next? id = behind.head? := by
  rw [next?, after_split horder h]

theorem prev?_split (horder : g.order = front ++ id :: behind) (h : id ∉ front) :
    g.prev? id = front.getLast? := by
  rw [prev?, before_split horder h, List.head?_reverse]

theorem startingAt_head (horder : g.order = id :: behind) : g.startingAt id = id :: behind :=
  startingAt_split (show g.order = [] ++ id :: behind from horder) List.not_mem_nil

theorem next?_head (horder : g.order = id :: behind) : g.next? id = behind.head? :=
  next?_split (show g.order = [] ++ id :: behind from horder) List.not_mem_nil

theorem prev?_head (horder : g.order = id :: behind) : g.prev? id = none :=
  prev?_split (show g.order = [] ++ id :: behind from horder) List.not_mem_nil

end Split

/-- The items of an ordered listing split at any of them. -/
theorem Ordered.split {g : Graph} (hg : g.Ordered) {id : ItemId} (h : id < g.size) :
    ∃ front behind, g.order = front ++ id :: behind ∧ id ∉ front ∧ id ∉ behind := by
  obtain ⟨front, behind, horder, hfront⟩ := List.eq_append_cons_of_mem ((hg.mem_order id).2 h)
  refine ⟨front, behind, horder, hfront, ?_⟩
  have hnodup := hg.nodup
  rw [horder, List.nodup_append] at hnodup
  exact (List.nodup_cons.1 hnodup.2.1).1

theorem Ordered.notMem_front {g : Graph} (hg : g.Ordered) {front behind : List ItemId}
    {id : ItemId} (horder : g.order = front ++ id :: behind) : id ∉ front := by
  have hnodup := hg.nodup
  rw [horder, List.nodup_append] at hnodup
  exact fun hmem => hnodup.2.2 id hmem id List.mem_cons_self rfl

/-! ## Changes that keep the order -/

/-- A change that keeps positions keeps a listing ordered. -/
theorem Ordered.modify {g : Graph} (hg : g.Ordered) (id : ItemId) {f : Item → Item}
    (hf : ∀ item, (f item).pos = item.pos) : (g.modify id f).Ordered := by
  have hpos : ∀ other, ((g.modify id f).item other).pos = (g.item other).pos :=
    modify_keeps hf g id
  refine ⟨hg.nodup, ?_, ?_, ?_⟩
  · intro other
    rw [order_modify, size_modify]
    exact hg.mem_order other
  · rw [order_modify]
    simpa only [hpos] using hg.sorted
  · intro pos
    rw [findPos?_modify, order_modify]
    simpa only [hpos] using hg.findPos pos

theorem Ordered.modifyAll {f : Item → Item} (hf : ∀ item, (f item).pos = item.pos)
    (ids : List ItemId) {g : Graph} (hg : g.Ordered) : (g.modifyAll ids f).Ordered := by
  induction ids generalizing g with
  | nil => exact hg
  | cons id rest ih => exact ih (hg.modify id hf)

theorem Ordered.markProcessed {g : Graph} (hg : g.Ordered) (id : ItemId) :
    (g.markProcessed id).Ordered :=
  hg.modify id fun _ => rfl

/-! ## Insertions that keep the order -/

theorem Ordered.lt_of_mem {g : Graph} (hg : g.Ordered) {id : ItemId} (h : id ∈ g.order) :
    id < g.size :=
  (hg.mem_order id).1 h

theorem Ordered.ne_size_of_mem {g : Graph} (hg : g.Ordered) {id : ItemId} (h : id ∈ g.order) :
    id ≠ g.size :=
  Nat.ne_of_lt (hg.lt_of_mem h)

/-- The foremost item of a position after an insertion: the new item, if it took the place of the
foremost one. -/
theorem Ordered.findPos?_insertBefore {g : Graph} (hg : g.Ordered) {site : ItemId} {item : Item}
    (hsite : site < g.size) (hpos : item.pos = (g.item site).pos) (pos : UInt16) :
    (g.insertBefore site item).findPos? pos =
      if g.findPos? pos = some site then some g.size else g.findPos? pos := by
  have hfound : (g.findPos? item.pos).isSome := by
    rw [hg.findPos, List.find?_isSome]
    exact ⟨site, (hg.mem_order site).2 hsite, by simp [hpos]⟩
  have hsame : ∀ id, g.findPos? pos = some id → (g.item id).pos = pos := by
    intro id hid
    rw [hg.findPos] at hid
    simpa using List.find?_some hid
  obtain ⟨found, hfound⟩ := Option.isSome_iff_exists.1 hfound
  have hlookup : g.firstAt[item.pos]? = some found := hfound
  by_cases hsites : found = site
  · subst hsites
    by_cases hp : pos = item.pos
    · subst hp
      simp [insertBefore, findPos?, hlookup]
    · have hne : g.findPos? pos ≠ some found := fun h => hp ((hsame found h).symm.trans hpos.symm)
      rw [if_neg hne]
      simp [insertBefore, findPos?, hlookup, Std.TreeMap.getElem?_insert, Ne.symm hp]
  · have hne : g.findPos? pos ≠ some site := by
      intro h
      have hp : pos = item.pos := (hsame site h).symm.trans hpos.symm
      rw [hp, hfound] at h
      exact hsites (Option.some.inj h)
    rw [if_neg hne]
    simp [insertBefore, findPos?, hlookup, hsites]

/-- An insertion of an item with the position of the item behind it keeps a listing ordered. -/
theorem Ordered.insertBefore {g : Graph} (hg : g.Ordered) {site : ItemId} {item : Item}
    (hsite : site < g.size) (hpos : item.pos = (g.item site).pos) :
    (g.insertBefore site item).Ordered := by
  have hmem : site ∈ g.order := (hg.mem_order site).2 hsite
  have hnew := item_insertBefore_new g site item
  have hold : ∀ id ∈ g.order, (g.insertBefore site item).item id = g.item id := fun id hid =>
    item_insertBefore_of_ne (hg.ne_size_of_mem hid) site item
  refine ⟨?_, ?_, ?_, ?_⟩
  · exact nodup_placeBefore hg.nodup fun h => hg.ne_size_of_mem h rfl
  · intro id
    rw [Graph.order_insertBefore, mem_placeBefore hmem, size_insertBefore, hg.mem_order]
    exact or_comm.trans Nat.lt_succ_iff_lt_or_eq.symm
  · refine pairwise_placeBefore ?_ ?_ ?_ ?_
    · refine List.Pairwise.imp_of_mem ?_ hg.sorted
      intro a b ha hb hab
      rwa [hold a ha, hold b hb]
    · rw [hnew, hold site hmem, hpos]
      exact UInt16.le_refl _
    · intro a ha
      rw [hnew, hold site hmem, hpos]
      exact id
    · intro b hb
      rw [hnew, hold site hmem, hpos]
      exact id
  · intro pos
    rw [hg.findPos?_insertBefore hsite hpos, hg.findPos, Graph.order_insertBefore]
    rw [find?_placeBefore (by rw [hnew, hold site hmem, hpos])]
    have hsearch : (g.order.find? fun id => ((g.insertBefore site item).item id).pos = pos) =
        g.order.find? fun id => (g.item id).pos = pos :=
      List.find?_congr fun id hid => by rw [hold id hid]
    rw [hsearch]

end Parley.Graph
