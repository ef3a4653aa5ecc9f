import Parley.Proofs.Listing.Order
set_option autoImplicit false

/-!
# What stands before what

In a list without repetition the items are ordered by their places.  The order is kept when items are put
between them.  An item stays directly behind another one as long as nothing is put before it.
-/

namespace Parley

variable {order order' front behind : List ItemId} {a b c x : ItemId}

/-- One item stands before another in a list. -/
def Precedes (order : List ItemId) (a b : ItemId) : Prop := [a, b].Sublist order

instance (order : List ItemId) (a b : ItemId) : Decidable (Precedes order a b) :=
  inferInstanceAs (Decidable ([a, b].Sublist order))

theorem precedes_iff :
    Precedes order a b ↔ ∃ front behind, order = front ++ a :: behind ∧ b ∈ behind := by
  constructor
  · intro h
    obtain ⟨before, rest, rfl, ha, hb⟩ := List.cons_sublist_iff.1 h
    obtain ⟨front, between, rfl⟩ := List.append_of_mem ha
    refine ⟨front, between ++ rest, by simp, List.mem_append_right _ ?_⟩
    exact List.singleton_sublist.1 hb
  · rintro ⟨front, behind, rfl, hb⟩
    refine List.Sublist.trans ?_ (List.sublist_append_right front _)
    exact (List.singleton_sublist.2 hb).cons_cons a

namespace Precedes

theorem mono (h : Precedes order a b) (hsub : order.Sublist order') : Precedes order' a b :=
  List.Sublist.trans h hsub

theorem left_mem (h : Precedes order a b) : a ∈ order := h.subset List.mem_cons_self

theorem right_mem (h : Precedes order a b) : b ∈ order :=
  h.subset (List.mem_cons_of_mem _ List.mem_cons_self)

end Precedes

/-- What does not stand in the front part of a list stands before others in the rest. -/
theorem Precedes.of_append (h : Precedes (front ++ behind) a b) (ha : a ∉ front) : Precedes behind a b := by
  obtain ⟨before, after, hsplit, hfront, hafter⟩ := List.sublist_append_iff.1 h
  cases before with
  | nil =>
    rw [List.nil_append] at hsplit
    rwa [← hsplit] at hafter
  | cons x before =>
    obtain ⟨rfl, -⟩ := List.cons.inj hsplit
    exact absurd (hfront.subset List.mem_cons_self) ha

/-! ## Lists without repetition -/

theorem notMem_of_nodup_split (h : (front ++ x :: behind).Nodup) : x ∉ front ∧ x ∉ behind := by
  rw [List.nodup_append, List.nodup_cons] at h
  exact ⟨fun hmem => h.2.2 x hmem x List.mem_cons_self rfl, h.2.1.1⟩

/-- A list without repetition splits at an item in one way. -/
theorem split_unique {front' behind' : List ItemId} (h : (front ++ x :: behind).Nodup)
    (heq : front ++ x :: behind = front' ++ x :: behind') : front = front' ∧ behind = behind' := by
  have h' := notMem_of_nodup_split (heq ▸ h)
  have hfront := (notMem_of_nodup_split h).1
  rcases List.append_eq_append_iff.1 heq with ⟨more, rfl, hrest⟩ | ⟨more, rfl, hrest⟩
  · cases more with
    | nil => simpa using hrest
    | cons y more =>
      rw [List.cons_append] at hrest
      obtain ⟨rfl, -⟩ := List.cons.inj hrest
      exact absurd (List.mem_append_right _ List.mem_cons_self) h'.1
  · cases more with
    | nil => simpa using hrest.symm
    | cons y more =>
      rw [List.cons_append] at hrest
      obtain ⟨rfl, -⟩ := List.cons.inj hrest
      exact absurd (List.mem_append_right _ List.mem_cons_self) hfront

theorem precedes_split_right (h : (front ++ x :: behind).Nodup) :
    Precedes (front ++ x :: behind) x b ↔ b ∈ behind := by
  rw [precedes_iff]
  constructor
  · rintro ⟨front', behind', heq, hb⟩
    rwa [(split_unique h heq).2]
  · exact fun hb => ⟨front, behind, rfl, hb⟩

theorem precedes_split_left (h : (front ++ x :: behind).Nodup) :
    Precedes (front ++ x :: behind) a x ↔ a ∈ front := by
  rw [precedes_iff]
  constructor
  · rintro ⟨front', behind', heq, hx⟩
    obtain ⟨between, rest, rfl⟩ := List.append_of_mem hx
    have hsplit : front ++ x :: behind = (front' ++ a :: between) ++ x :: rest := by
      rw [heq, List.append_assoc, List.cons_append]
    rw [(split_unique h hsplit).1]
    exact List.mem_append_right _ List.mem_cons_self
  · intro ha
    obtain ⟨before, between, rfl⟩ := List.append_of_mem ha
    refine ⟨before, between ++ x :: behind, by simp, ?_⟩
    exact List.mem_append_right _ List.mem_cons_self

namespace Precedes

theorem trans (horder : order.Nodup) (hab : Precedes order a b) (hbc : Precedes order b c) :
    Precedes order a c := by
  obtain ⟨front, behind, rfl, hc⟩ := precedes_iff.1 hbc
  obtain ⟨before, between, rfl⟩ := List.append_of_mem ((precedes_split_left horder).1 hab)
  refine precedes_iff.2 ⟨before, between ++ b :: behind, by simp, ?_⟩
  exact List.mem_append_right _ (List.mem_cons_of_mem _ hc)

theorem irrefl (horder : order.Nodup) (h : Precedes order a a) : False := by
  obtain ⟨front, behind, rfl, ha⟩ := precedes_iff.1 h
  exact (notMem_of_nodup_split horder).2 ha

theorem asymm (horder : order.Nodup) (h : Precedes order a b) (h' : Precedes order b a) : False :=
  irrefl horder (h.trans horder h')

theorem ne (horder : order.Nodup) (h : Precedes order a b) : a ≠ b := by
  rintro rfl
  exact h.irrefl horder

end Precedes

theorem precedes_total (ha : a ∈ order) (hb : b ∈ order) (hne : a ≠ b) :
    Precedes order a b ∨ Precedes order b a := by
  obtain ⟨front, behind, rfl⟩ := List.append_of_mem ha
  rcases List.mem_append.1 hb with hfront | hbehind
  · obtain ⟨before, between, rfl⟩ := List.append_of_mem hfront
    refine Or.inr (precedes_iff.2 ⟨before, between ++ a :: behind, by simp, ?_⟩)
    exact List.mem_append_right _ List.mem_cons_self
  · rcases List.mem_cons.1 hbehind with rfl | hbehind
    · exact absurd rfl hne
    · exact Or.inl (precedes_iff.2 ⟨front, behind, rfl, hbehind⟩)

/-- Items of a part of a list stand in it as they stand in the list. -/
theorem Precedes.of_sublist (horder' : order'.Nodup) (hsub : order.Sublist order') (ha : a ∈ order)
    (hb : b ∈ order) (h : Precedes order' a b) : Precedes order a b := by
  rcases precedes_total ha hb (h.ne horder') with hab | hba
  · exact hab
  · exact (h.asymm horder' (hba.mono hsub)).elim

/-! ## Insertions -/

theorem precedes_placeBefore_site {new site : ItemId} (hsite : site ∈ order) :
    Precedes (Graph.placeBefore new site order) new site := by
  obtain ⟨front, behind, rfl, hfront⟩ := List.eq_append_cons_of_mem hsite
  rw [Graph.placeBefore_split hfront]
  exact precedes_iff.2 ⟨front, site :: behind, rfl, List.mem_cons_self⟩

/-- What stands before an item stands before what is put in front of the item. -/
theorem precedes_placeBefore_new {new site : ItemId} (horder : order.Nodup)
    (h : Precedes order a site) : Precedes (Graph.placeBefore new site order) a new := by
  obtain ⟨front, behind, rfl, hfront⟩ := List.eq_append_cons_of_mem h.right_mem
  rw [Graph.placeBefore_split hfront]
  obtain ⟨before, between, rfl⟩ := List.append_of_mem ((precedes_split_left horder).1 h)
  refine precedes_iff.2 ⟨before, between ++ new :: site :: behind, by simp, ?_⟩
  exact List.mem_append_right _ List.mem_cons_self

/-- An insertion behind all items with a property adds to them at the end. -/
theorem filter_placeBefore {p : ItemId → Bool} {new site : ItemId} (hnodup : order.Nodup) (hsite : site ∈ order)
    (hnew : p new = true) (hlast : ∀ id ∈ order, p id = true → Precedes order id site) :
    (Graph.placeBefore new site order).filter p = order.filter p ++ [new] := by
  obtain ⟨front, behind, rfl, hfront⟩ := List.eq_append_cons_of_mem hsite
  have hnone : (site :: behind).filter p = [] := by
    rw [List.filter_eq_nil_iff]
    intro id hid hp
    have hmem := (precedes_split_left hnodup).1 (hlast id (List.mem_append_right _ hid) hp)
    exact (List.nodup_append.1 hnodup).2.2 id hmem id hid rfl
  rw [Graph.placeBefore_split hfront, List.filter_append, List.filter_cons_of_pos hnew, hnone,
    List.filter_append, hnone, List.append_nil]

/-! ## Neighbours -/

/-- One item stands directly before another in a list. -/
def Adjoins (order : List ItemId) (a b : ItemId) : Prop :=
  ∃ front behind, order = front ++ a :: b :: behind

namespace Adjoins

theorem precedes (h : Adjoins order a b) : Precedes order a b := by
  obtain ⟨front, behind, rfl⟩ := h
  exact precedes_iff.2 ⟨front, b :: behind, rfl, List.mem_cons_self⟩

/-- Nothing stands between an item and the one directly before it. -/
theorem eq_or_precedes_left (h : Adjoins order a b) (horder : order.Nodup) (hx : Precedes order x b) :
    x = a ∨ Precedes order x a := by
  obtain ⟨front, behind, rfl⟩ := h
  have hsplit : front ++ a :: b :: behind = (front ++ [a]) ++ b :: behind := by simp
  have hmem : x ∈ front ++ [a] := by
    rw [hsplit] at horder hx
    exact (precedes_split_left horder).1 hx
  rcases List.mem_append.1 hmem with hx | hx
  · exact Or.inr ((precedes_split_left horder).2 hx)
  · exact Or.inl (List.mem_singleton.1 hx)

/-- Nothing stands between an item and the one directly behind it. -/
theorem eq_or_precedes_right (h : Adjoins order a b) (horder : order.Nodup) (hx : Precedes order a x) :
    x = b ∨ Precedes order b x := by
  by_cases hsame : x = b
  · exact Or.inl hsame
  · refine Or.inr ((precedes_total h.precedes.right_mem hx.right_mem (Ne.symm hsame)).resolve_right fun hxb => ?_)
    rcases h.eq_or_precedes_left horder hxb with rfl | hxa
    · exact hx.irrefl horder
    · exact hx.asymm horder hxa

theorem left_unique (h : Adjoins order a b) (h' : Adjoins order x b) (horder : order.Nodup) :
    x = a := by
  rcases h.eq_or_precedes_left horder h'.precedes with heq | hxa
  · exact heq
  · rcases h'.eq_or_precedes_left horder h.precedes with heq | hax
    · exact heq.symm
    · exact (hxa.asymm horder hax).elim

/-- Items stay neighbours when nothing is put before the second. -/
theorem placeBefore (h : Adjoins order a b) {new site : ItemId} (hsite : site ≠ b) :
    Adjoins (Graph.placeBefore new site order) a b := by
  obtain ⟨front, behind, rfl⟩ := h
  induction front with
  | nil =>
    rw [List.nil_append, Graph.placeBefore]
    split
    · exact ⟨[new], behind, rfl⟩
    · rw [Graph.placeBefore, if_neg (Ne.symm hsite)]
      exact ⟨[], _, rfl⟩
  | cons y front ih =>
    rw [List.cons_append, Graph.placeBefore]
    split
    · exact ⟨new :: y :: front, behind, rfl⟩
    · obtain ⟨front', behind', heq⟩ := ih
      exact ⟨y :: front', behind', by rw [heq, List.cons_append]⟩

/-- What is put before an item stands directly behind the one that stood directly before it. -/
theorem placeBefore_new (horder : order.Nodup) {new site : ItemId} (h : Adjoins order a site) :
    Adjoins (Graph.placeBefore new site order) a new := by
  obtain ⟨front, behind, rfl⟩ := h
  have hsplit : front ++ a :: site :: behind = (front ++ [a]) ++ site :: behind := by simp
  rw [hsplit] at horder ⊢
  rw [Graph.placeBefore_split (notMem_of_nodup_split horder).1]
  exact ⟨front, site :: behind, by simp⟩

end Adjoins

theorem adjoins_placeBefore_site {new site : ItemId} (hsite : site ∈ order) :
    Adjoins (Graph.placeBefore new site order) new site := by
  obtain ⟨front, behind, rfl, hfront⟩ := List.eq_append_cons_of_mem hsite
  rw [Graph.placeBefore_split hfront]
  exact ⟨front, behind, rfl⟩

/-! ## Places in a listing -/

theorem Graph.sublist_between (g : Graph) (a b : ItemId) : (g.between a b).Sublist g.order :=
  (List.takeWhile_sublist _).trans ((List.tail_sublist _).trans (List.dropWhile_sublist _))

namespace Graph.Ordered

variable {g : Graph} (hg : g.Ordered)

include hg

theorem pos_le (h : Precedes g.order a b) : (g.item a).pos ≤ (g.item b).pos :=
  List.pairwise_iff_forall_sublist.1 hg.sorted h

/-- Of two items of a listing one stands before the other. -/
theorem precedes_or (ha : a < g.size) (hb : b < g.size) (hne : a ≠ b) :
    Precedes g.order a b ∨ Precedes g.order b a :=
  precedes_total ((hg.mem_order a).2 ha) ((hg.mem_order b).2 hb) hne

theorem precedes_of_pos_lt (ha : a < g.size) (hb : b < g.size) (h : (g.item a).pos < (g.item b).pos) :
    Precedes g.order a b := by
  have hne : a ≠ b := by
    rintro rfl
    exact UInt16.lt_irrefl _ h
  exact (hg.precedes_or ha hb hne).resolve_right fun hba => UInt16.not_le.2 h (hg.pos_le hba)

/-- What stands before the foremost item of a position stands at a lower one. -/
theorem pos_lt_findPos? {pos : UInt16} (hfind : g.findPos? pos = some b) (h : Precedes g.order a b) :
    (g.item a).pos < pos := by
  obtain ⟨-, hpos⟩ := hg.of_findPos? hfind
  have hle : (g.item a).pos ≤ pos := hpos ▸ hg.pos_le h
  refine UInt16.lt_of_le_of_ne hle fun heq => ?_
  obtain ⟨front, behind, horder, hb⟩ := precedes_iff.1 h
  rw [hg.findPos, List.find?_eq_some_iff_append] at hfind
  obtain ⟨-, before, after, hsplit, hbefore⟩ := hfind
  have hnodup := hg.nodup
  rw [hsplit] at h hnodup
  have ha := hbefore a ((precedes_split_left hnodup).1 h)
  simp [heq] at ha

/-- The foremost item of a position stands before all others that stand there or behind. -/
theorem eq_or_precedes_of_findPos? {pos : UInt16} (hfind : g.findPos? pos = some b) (ha : a < g.size)
    (hle : pos ≤ (g.item a).pos) : a = b ∨ Precedes g.order b a := by
  by_cases hsame : a = b
  · exact Or.inl hsame
  · have hb : b < g.size := (hg.mem_order b).1 (hg.of_findPos? hfind).1
    refine Or.inr ((hg.precedes_or ha hb hsame).resolve_left fun hbefore => ?_)
    exact UInt16.not_lt.2 hle (hg.pos_lt_findPos? hfind hbefore)

theorem isSome_findPos? {pos : UInt16} (ha : a < g.size) (hpos : (g.item a).pos = pos) :
    (g.findPos? pos).isSome := by
  rw [hg.findPos, List.find?_isSome]
  exact ⟨a, (hg.mem_order a).2 ha, by simp [hpos]⟩

theorem mem_after (ha : a < g.size) : b ∈ g.after a ↔ Precedes g.order a b := by
  obtain ⟨front, behind, horder, hfront, -⟩ := hg.split ha
  have hnodup := hg.nodup
  rw [after_split horder hfront, horder, precedes_split_right (horder ▸ hnodup)]

/-- The less stands behind an item the further behind it stands. -/
theorem length_after_lt (h : Precedes g.order a b) : (g.after b).length < (g.after a).length := by
  obtain ⟨front, behind, horder, hb⟩ := precedes_iff.1 h
  obtain ⟨between, rest, rfl⟩ := List.append_of_mem hb
  have hsplit : g.order = (front ++ a :: between) ++ b :: rest := by rw [horder, List.append_assoc, List.cons_append]
  rw [after_split horder (hg.notMem_front horder), after_split hsplit (hg.notMem_front hsplit), List.length_append,
    List.length_cons]
  omega

theorem mem_startingAt (ha : a < g.size) : b ∈ g.startingAt a ↔ b = a ∨ Precedes g.order a b := by
  obtain ⟨front, behind, horder, hfront, -⟩ := hg.split ha
  have hnodup := hg.nodup
  rw [startingAt_split horder hfront, List.mem_cons, horder, precedes_split_right (horder ▸ hnodup)]

theorem mem_before (hb : b < g.size) : a ∈ g.before b ↔ Precedes g.order a b := by
  obtain ⟨front, behind, horder, hfront, -⟩ := hg.split hb
  have hnodup := hg.nodup
  rw [before_split horder hfront, List.mem_reverse, horder, precedes_split_left (horder ▸ hnodup)]

theorem mem_between (h : Precedes g.order a b) :
    x ∈ g.between a b ↔ Precedes g.order a x ∧ Precedes g.order x b := by
  have ha := hg.lt_of_mem h.left_mem
  have hb := (hg.mem_after ha).2 h
  obtain ⟨front, behind, hafter, hfront⟩ := List.eq_append_cons_of_mem hb
  have hbetween : g.between a b = front := by
    rw [between, hafter, List.takeWhile_append_of_pos]
    · simp
    · intro y hy
      have hne : y ≠ b := fun heq => hfront (heq ▸ hy)
      simpa using hne
  obtain ⟨before, after, horder, hbefore, -⟩ := hg.split ha
  rw [after_split horder hbefore] at hafter
  rw [hafter] at horder
  have hsplit : g.order = (before ++ a :: front) ++ b :: behind := by
    rw [horder, List.append_assoc, List.cons_append]
  have hnodup := hg.nodup
  rw [hbetween]
  constructor
  · intro hx
    refine ⟨?_, ?_⟩
    · rw [horder, precedes_split_right (horder ▸ hnodup)]
      exact List.mem_append_left _ hx
    · rw [hsplit, precedes_split_left (hsplit ▸ hnodup)]
      exact List.mem_append_right _ (List.mem_cons_of_mem _ hx)
  · rintro ⟨hax, hxb⟩
    have hxb' := hxb
    rw [hsplit, precedes_split_left (hsplit ▸ hnodup)] at hxb
    rcases List.mem_append.1 hxb with hx | hx
    · have hxa : Precedes g.order x a := by
        rw [horder, precedes_split_left (horder ▸ hnodup)]
        exact hx
      exact (hax.asymm hg.nodup hxa).elim
    · rcases List.mem_cons.1 hx with rfl | hx
      · exact (hax.irrefl hg.nodup).elim
      · exact hx

theorem backBetween_eq (h : Precedes g.order a b) : g.backBetween a b = (g.between a b).reverse := by
  obtain ⟨front, behind, horder, hb⟩ := precedes_iff.1 h
  obtain ⟨near, rest, rfl, hnear⟩ := List.eq_append_cons_of_mem hb
  have hnodup := hg.nodup
  rw [horder] at hnodup
  have ha : a ∉ near := fun hmem =>
    (notMem_of_nodup_split hnodup).2 (List.mem_append_left _ hmem)
  have hsplit : g.order = (front ++ a :: near) ++ b :: rest := by
    rw [horder, List.append_assoc, List.cons_append]
  have hbetween : g.between a b = near := by
    rw [between, after_split horder (hg.notMem_front horder), List.takeWhile_append_of_pos]
    · simp
    · intro y hy
      have hne : y ≠ b := fun heq => hnear (heq ▸ hy)
      simpa using hne
  rw [hbetween, backBetween, before_split hsplit (hg.notMem_front hsplit), List.reverse_append,
    List.reverse_cons, List.append_assoc, List.takeWhile_append_of_pos]
  · simp
  · intro y hy
    have hne : y ≠ a := fun heq => ha (heq ▸ List.mem_reverse.1 hy)
    simpa using hne

theorem mem_backBetween (h : Precedes g.order a b) :
    x ∈ g.backBetween a b ↔ Precedes g.order a x ∧ Precedes g.order x b := by
  rw [hg.backBetween_eq h, List.mem_reverse, hg.mem_between h]

/-! ### Neighbours -/

theorem precedes_prev? (hb : b < g.size) (h : g.prev? b = some a) : Precedes g.order a b :=
  (hg.mem_before hb).1 (List.mem_of_head? h)

theorem precedes_next? (ha : a < g.size) (h : g.next? a = some b) : Precedes g.order a b :=
  (hg.mem_after ha).1 (List.mem_of_head? h)

theorem adjoins_prev? (hb : b < g.size) (h : g.prev? b = some a) : Adjoins g.order a b := by
  obtain ⟨front, behind, horder, hfront, -⟩ := hg.split hb
  rw [prev?_split horder hfront] at h
  obtain ⟨before, rfl⟩ := List.getLast?_eq_some_iff.1 h
  exact ⟨before, behind, by rw [horder, List.append_assoc]; rfl⟩

theorem adjoins_next? (ha : a < g.size) (h : g.next? a = some b) : Adjoins g.order a b := by
  obtain ⟨front, behind, horder, hfront, -⟩ := hg.split ha
  rw [next?_split horder hfront] at h
  obtain ⟨after, rfl⟩ := List.head?_eq_some_iff.1 h
  exact ⟨front, after, horder⟩

theorem next?_of_adjoins (h : Adjoins g.order a b) : g.next? a = some b := by
  obtain ⟨front, behind, horder⟩ := h
  rw [next?_split horder (hg.notMem_front horder), List.head?_cons]

theorem prev?_of_adjoins (h : Adjoins g.order a b) : g.prev? b = some a := by
  obtain ⟨front, behind, horder⟩ := h
  have hsplit : g.order = (front ++ [a]) ++ b :: behind := by rw [horder, List.append_assoc]; rfl
  rw [prev?_split hsplit (hg.notMem_front hsplit), List.getLast?_concat]

theorem isSome_next? (h : Precedes g.order a b) : (g.next? a).isSome := by
  have hmem := (hg.mem_after (hg.lt_of_mem h.left_mem)).2 h
  rw [next?, List.isSome_head?]
  exact List.ne_nil_of_mem hmem

theorem isSome_prev? (h : Precedes g.order a b) : (g.prev? b).isSome := by
  have hmem := (hg.mem_before (hg.lt_of_mem h.right_mem)).2 h
  rw [prev?, List.isSome_head?]
  exact List.ne_nil_of_mem hmem

end Graph.Ordered

end Parley
