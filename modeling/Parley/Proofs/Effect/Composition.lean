import Parley.Proofs.Decompile.Consumption
set_option autoImplicit false

/-!
# What statements are made of

What a turn leaves is made of its own operation and of what its operands are made of.  The open expressions along
the listing are made of operations in the order of the listing, because a turn takes the nearest of them.  So
statements are made of operations in order, too, with one exception: an expression that waits while a statement is
made is made of operations before all of that statement.
-/
namespace Parley

/-- An operation is part of what a turn has left: the turn was its own, or it is part of an operand. -/
inductive Part (turns : List Turn) : ItemId → ItemId → Prop where
  | own {t : Turn} (h : t ∈ turns) : Part turns t.result t.id
  | operand {t : Turn} {x o : ItemId} (h : t ∈ turns) (hx : x ∈ t.operands) (hpart : Part turns x o) :
      Part turns t.result o

namespace Part

variable {turns : List Turn} {x o : ItemId} {t : Turn}

theorem exists_result (h : Part turns x o) : ∃ t ∈ turns, t.result = x := by
  cases h with
  | own h => exact ⟨_, h, rfl⟩
  | operand h _ _ => exact ⟨_, h, rfl⟩

theorem exists_id (h : Part turns x o) : ∃ t ∈ turns, t.id = o := by
  induction h with
  | own h => exact ⟨_, h, rfl⟩
  | operand _ _ _ ih => exact ih

/-- A later turn makes no earlier item of anything. -/
theorem of_append (h : Part (turns ++ [t]) x o) (hx : x ≠ t.result)
    (hfresh : ∀ t' ∈ turns, t.result ∉ t'.operands) : Part turns x o := by
  induction h with
  | @own t' h =>
    rcases List.mem_append.1 h with h | h
    · exact .own h
    · exact absurd (congrArg Turn.result (List.mem_singleton.1 h)) hx
  | @operand t' y o h hy _ ih =>
    rcases List.mem_append.1 h with h | h
    · exact .operand h hy (ih fun heq => hfresh t' h (heq ▸ hy))
    · exact absurd (congrArg Turn.result (List.mem_singleton.1 h)) hx

end Part

namespace Decompilation

variable {d d₁ d' : Decompilation} {func : Nat} {t : Turn} {turns done : List Turn} {id other : ItemId}

/-! ## The operands of a turn -/

namespace Consumes

variable (h : d.Consumes func t d₁) (hd : d.graph.Sound)

include h hd

/-- The operands are the first of all open expressions before the operation, nearest first. -/
theorem exists_farther : ∃ front behind farther, d.graph.order = front ++ t.id :: behind ∧
    front.reverse.filter (fun id => (d.graph.item id).isOpenExpression) = t.operands ++ farther := by
  obtain ⟨front, behind, horder, hfront, -⟩ := hd.ordered.split h.lt_size
  have hprefix : d.graph.openBefore (d.bounds func).1 t.id <+:
      front.reverse.filter fun id => (d.graph.item id).isOpenExpression := by
    rw [Graph.openBefore, Graph.backBetween, Graph.before_split horder hfront]
    exact (List.takeWhile_prefix _).filter _
  obtain ⟨farther, hfarther⟩ := (List.take_prefix t.operation.needed _).trans hprefix
  exact ⟨front, behind, farther, horder, by rw [h.operands, hfarther]⟩

theorem operand_precedes (hother : other ∈ t.operands) : Precedes d.graph.order other t.id := by
  obtain ⟨front, behind, farther, horder, hfilter⟩ := h.exists_farther hd
  have hmem : other ∈ front.reverse :=
    List.mem_of_mem_filter (hfilter ▸ List.mem_append_left farther hother)
  rw [horder, precedes_split_left (horder ▸ hd.ordered.nodup)]
  exact List.mem_reverse.1 hmem

/-- An open expression before the operation that is no operand stands before all operands. -/
theorem precedes_operand (hopen : (d.graph.item id).isOpenExpression = true) (hid : Precedes d.graph.order id t.id)
    (hnot : id ∉ t.operands) (hother : other ∈ t.operands) : Precedes d.graph.order id other := by
  obtain ⟨front, behind, farther, horder, hfilter⟩ := h.exists_farther hd
  have hmem : id ∈ t.operands ++ farther := by
    rw [← hfilter, List.mem_filter, List.mem_reverse]
    exact ⟨(precedes_split_left (horder ▸ hd.ordered.nodup)).1 (horder ▸ hid), hopen⟩
  have hsub : (t.operands ++ farther).Sublist front.reverse := hfilter ▸ List.filter_sublist
  have hpair : [other, id].Sublist front.reverse :=
    ((List.singleton_sublist.2 hother).append
      (List.singleton_sublist.2 ((List.mem_append.1 hmem).resolve_left hnot))).trans hsub
  have hfront : Precedes front id other := by
    have hreverse := List.reverse_sublist.2 hpair
    rwa [List.reverse_reverse] at hreverse
  exact hfront.mono (horder ▸ List.sublist_append_left front _)

theorem site_mem : t.site ∈ d.graph.order := by
  have hid := (hd.ordered.mem_order t.id).2 h.lt_size
  rcases h.site with hsite | ⟨hsite, -⟩
  · rwa [hsite]
  · exact (h.operand_precedes hd (List.mem_of_getLast? hsite)).left_mem

/-- The result stands before the operation. -/
theorem result_precedes : Precedes d₁.graph.order t.result t.id := by
  have hnodup := h.advances.sound.ordered.nodup
  have hresult : Precedes (Graph.placeBefore t.result t.site d.graph.order) t.result t.site :=
    precedes_placeBefore_site (h.site_mem hd)
  rw [← h.order] at hresult
  rcases h.site with hsite | ⟨hsite, -⟩
  · rwa [hsite] at hresult
  · exact hresult.trans hnodup ((h.operand_precedes hd (List.mem_of_getLast? hsite)).mono h.advances.grows.order)

/-- What stands before the site stands before the result. -/
theorem precedes_result (hid : Precedes d.graph.order id t.site) : Precedes d₁.graph.order id t.result := by
  rw [h.order]
  exact precedes_placeBefore_new hd.ordered.nodup hid

/-- A statement before the operation stands before the result. -/
theorem statement_precedes (hstatement : (d.graph.item id).statement?.isSome = true)
    (hid : Precedes d.graph.order id t.id) : Precedes d₁.graph.order id t.result := by
  refine h.precedes_result hd ?_
  rcases h.site with hsite | ⟨hsite, hnone⟩
  · rwa [hsite]
  · have hearliest := List.mem_of_getLast? hsite
    have hsite := Graph.site_of_isOpenExpression (h.isOpenExpression_of_mem hearliest)
    have hne : id ≠ t.site := by
      rintro rfl
      rw [hsite.statement] at hstatement
      cases hstatement
    refine (precedes_total hid.left_mem (h.site_mem hd) hne).resolve_right fun hbehind => ?_
    rw [hnone id hbehind hid] at hstatement
    cases hstatement

/-- An open expression before the operation that is no operand stands before the result. -/
theorem expression_precedes (hopen : (d.graph.item id).isOpenExpression = true)
    (hid : Precedes d.graph.order id t.id) (hnot : id ∉ t.operands) : Precedes d₁.graph.order id t.result := by
  refine h.precedes_result hd ?_
  rcases h.site with hsite | ⟨hsite, -⟩
  · rwa [hsite]
  · exact h.precedes_operand hd hopen hid hnot (List.mem_of_getLast? hsite)

omit hd

theorem result_lt_size : t.result < d₁.graph.size := by
  rw [h.size, h.result]
  exact Nat.lt_succ_self _

/-- What is an open expression behind a turn is the result, or has been one before and is no operand. -/
theorem isOpenExpression_before (hid : id < d.graph.size) (hopen : (d₁.graph.item id).isOpenExpression = true) :
    (d.graph.item id).isOpenExpression = true ∧ id ∉ t.operands := by
  have hkept := h.advances.grows.kept id hid
  unfold Item.isOpenExpression at hopen ⊢
  rw [hkept.expression] at hopen
  rw [Bool.and_eq_true, Bool.not_eq_true'] at hopen ⊢
  refine ⟨⟨?_, hopen.2⟩, fun hmem => ?_⟩
  · by_contra hprocessed
    rw [hkept.processed (Bool.not_eq_false _ ▸ hprocessed)] at hopen
    exact absurd hopen.1 (by decide)
  · rw [h.marked id (List.mem_cons_of_mem _ hmem)] at hopen
    exact absurd hopen.1 (by decide)

end Consumes

/-! ## The order of what turns leave -/

/-- What the turns that have been taken have left, where the items up to `base` have been there before.  Results
stand before their operations.  Open expressions are made of operations in the order of the listing.  Statements
stand in the order of their operations, and what an open expression is made of comes after a statement or before
all that the statement is made of; so it is with what a later statement is made of. -/
structure Arranged (base : Nat) (done : List Turn) (d : Decompilation) : Prop where
  sound : d.graph.Sound
  size : base ≤ d.graph.size
  made : ∀ t ∈ done, (d.graph.item t.id).operation? = some t.operation ∧
    (d.graph.item t.result).expression?.isSome = t.operation.leavesExpression ∧
    (d.graph.item t.result).statement?.isSome = !t.operation.leavesExpression
  operands : ∀ t ∈ done, ∀ id ∈ t.operands, id < d.graph.size ∧ (d.graph.item id).expression?.isSome = true
  placed : ∀ t ∈ done, Precedes d.graph.order t.result t.id
  within : ∀ t ∈ done, ∀ o, Part done t.result o → o = t.id ∨ Precedes d.graph.order o t.id
  ordered : ∀ x y, (d.graph.item x).isOpenExpression = true → (d.graph.item y).isOpenExpression = true →
    Precedes d.graph.order x y → ∀ o o', Part done x o → Part done y o' → Precedes d.graph.order o o'
  apart : ∀ x, (d.graph.item x).isOpenExpression = true → ∀ t ∈ done, t.operation.leavesExpression = false →
    ∀ o, Part done x o → Precedes d.graph.order t.id o ∨
      ∀ o', Part done t.result o' → Precedes d.graph.order o o'
  statements : ∀ t ∈ done, ∀ t' ∈ done, t.operation.leavesExpression = false →
    t'.operation.leavesExpression = false → Precedes d.graph.order t.id t'.id →
    Precedes d.graph.order t.result t'.result
  others : ∀ id < base, (d.graph.item id).statement?.isSome = true → ∀ t ∈ done,
    t.operation.leavesExpression = false → Precedes d.graph.order id t.id → Precedes d.graph.order id t.result
  waiting : ∀ t ∈ done, ∀ t' ∈ done, t.operation.leavesExpression = false →
    t'.operation.leavesExpression = false → Precedes d.graph.order t.id t'.id →
    ∀ o o', Part done t.result o → Part done t'.result o' → Precedes d.graph.order o o' ∨
      (∃ u ∈ done, u.id = o' ∧ u.operation.leavesExpression = true) ∧
        ∀ p, Part done t.result p → Precedes d.graph.order o' p

namespace Arranged

variable {base : Nat} {x o : ItemId}

theorem start (hd : d.graph.Sound) : Arranged d.graph.size [] d where
  sound := hd
  size := Nat.le_refl _
  made _ h := absurd h List.not_mem_nil
  operands _ h := absurd h List.not_mem_nil
  placed _ h := absurd h List.not_mem_nil
  within _ h := absurd h List.not_mem_nil
  ordered _ _ _ _ _ _ _ h := absurd h.exists_id (by simp)
  apart _ _ _ h := absurd h List.not_mem_nil
  statements _ h := absurd h List.not_mem_nil
  others _ _ _ _ h := absurd h List.not_mem_nil
  waiting _ h := absurd h List.not_mem_nil

section

variable (h : Arranged base done d)

include h

theorem result_lt (ht : t ∈ done) : t.result < d.graph.size :=
  h.sound.ordered.lt_of_mem (h.placed t ht).left_mem

/-- What an open expression is made of are operations that have left expressions. -/
theorem leavesExpression_of_part (hpart : Part done x o) (hx : (d.graph.item x).expression?.isSome = true) :
    ∃ u ∈ done, u.id = o ∧ u.operation.leavesExpression = true := by
  induction hpart with
  | own ht => exact ⟨_, ht, rfl, (h.made _ ht).2.1.symm.trans hx⟩
  | operand ht hy _ ih => exact ih (h.operands _ ht _ hy).2

end

/-! ### One more turn -/

section Turn

variable (h : Arranged base done d) (hturn : d.Consumes func t d₁)
  (hlast : ∀ t' ∈ done, Precedes d.graph.order t'.id t.id)

include h hturn

theorem part_old (hpart : Part (done ++ [t]) x o) (hx : x < d.graph.size) : Part done x o := by
  refine hpart.of_append ?_ fun t' ht' hmem => ?_
  · rw [hturn.result]
    exact Nat.ne_of_lt hx
  · have hlt := (h.operands t' ht' _ hmem).1
    rw [hturn.result] at hlt
    exact Nat.lt_irrefl _ hlt

/-- What the result of the turn is made of. -/
theorem part_new (hpart : Part (done ++ [t]) t.result o) :
    o = t.id ∨ ∃ y ∈ t.operands, Part done y o := by
  have hsame {t' : Turn} (ht' : t' ∈ done ++ [t]) (heq : t'.result = t.result) : t' = t := by
    rcases List.mem_append.1 ht' with ht' | ht'
    · have hlt := h.result_lt ht'
      rw [heq, hturn.result] at hlt
      exact absurd hlt (Nat.lt_irrefl _)
    · exact List.mem_singleton.1 ht'
  generalize hresult : t.result = r at hpart
  cases hpart with
  | own ht' => exact Or.inl (congrArg Turn.id (hsame ht' hresult.symm))
  | @operand t' y _ ht' hy hpart =>
    have heq := hsame ht' hresult.symm
    refine Or.inr ⟨y, heq ▸ hy, h.part_old hturn hpart ?_⟩
    exact (Graph.site_of_isOpenExpression (hturn.isOpenExpression_of_mem (heq ▸ hy))).lt_size

/-- An open expression that is no operand and made of anything comes before all that the result is made of. -/
theorem waiting_precedes (hlast : ∀ t' ∈ done, Precedes d.graph.order t'.id t.id) {p : ItemId}
    (hopen : (d.graph.item x).isOpenExpression = true) (hnot : x ∉ t.operands) (hpart : Part done x o)
    (hresult : Part (done ++ [t]) t.result p) : Precedes d.graph.order o p := by
  obtain ⟨u, hu, hux⟩ := hpart.exists_result
  obtain ⟨u', hu', huo⟩ := hpart.exists_id
  have hbefore : Precedes d.graph.order x t.id := hux ▸ (h.placed u hu).trans h.sound.ordered.nodup (hlast u hu)
  rcases h.part_new hturn hresult with rfl | ⟨y, hy, hp⟩
  · exact huo ▸ hlast u' hu'
  · exact h.ordered x y hopen (hturn.isOpenExpression_of_mem hy)
      (hturn.precedes_operand h.sound hopen hbefore hnot hy) o p hpart hp

section Fields

variable (hlast : ∀ t' ∈ done, Precedes d.graph.order t'.id t.id)

include hlast

theorem within_turn : ∀ t' ∈ done ++ [t], ∀ o, Part (done ++ [t]) t'.result o →
    o = t'.id ∨ Precedes d₁.graph.order o t'.id := by
  intro t' ht' o hpart
  have hmono {a b : ItemId} (hab : Precedes d.graph.order a b) := hab.mono hturn.advances.grows.order
  rcases List.mem_append.1 ht' with ht' | ht'
  · exact (h.within t' ht' o (h.part_old hturn hpart (h.result_lt ht'))).imp_right hmono
  · rw [List.mem_singleton.1 ht'] at hpart ⊢
    refine (h.part_new hturn hpart).imp_right fun ⟨y, hy, hp⟩ => ?_
    obtain ⟨u, hu, rfl⟩ := hp.exists_id
    exact hmono (hlast u hu)

theorem ordered_turn (x y : ItemId) (hx : (d₁.graph.item x).isOpenExpression = true)
    (hy : (d₁.graph.item y).isOpenExpression = true) (hxy : Precedes d₁.graph.order x y) (o o' : ItemId)
    (ho : Part (done ++ [t]) x o) (ho' : Part (done ++ [t]) y o') : Precedes d₁.graph.order o o' := by
  have hnodup := hturn.advances.sound.ordered.nodup
  have hsub := hturn.advances.grows.order
  have hcases {z : ItemId} (hz : (d₁.graph.item z).isOpenExpression = true) :
      z = t.result ∨ z < d.graph.size := by
    have hlt := (Graph.site_of_isOpenExpression hz).lt_size
    rw [hturn.size] at hlt
    exact (Nat.lt_succ_iff_lt_or_eq.1 hlt).symm.imp_left (·.trans hturn.result.symm)
  rcases hcases hx with rfl | hxlt
  · -- What is made of anything stands before the operation, and so before the result.
    exfalso
    rcases hcases hy with rfl | hylt
    · exact hxy.irrefl hnodup
    · obtain ⟨hopen, hnot⟩ := hturn.isOpenExpression_before hylt hy
      have hmade := h.part_old hturn ho' hylt
      obtain ⟨u, hu, rfl⟩ := hmade.exists_result
      have hbefore := (h.placed u hu).trans h.sound.ordered.nodup (hlast u hu)
      exact hxy.asymm hnodup (hturn.expression_precedes h.sound hopen hbefore hnot)
  · obtain ⟨hopen, hnot⟩ := hturn.isOpenExpression_before hxlt hx
    have hmade := h.part_old hturn ho hxlt
    rcases hcases hy with rfl | hylt
    · exact (h.waiting_precedes hturn hlast hopen hnot hmade ho').mono hsub
    · have hxy' := hxy.of_sublist hnodup hsub ((h.sound.ordered.mem_order x).2 hxlt)
        ((h.sound.ordered.mem_order y).2 hylt)
      exact (h.ordered x y hopen (hturn.isOpenExpression_before hylt hy).1 hxy' o o' hmade
        (h.part_old hturn ho' hylt)).mono hsub

theorem apart_turn (x : ItemId) (hx : (d₁.graph.item x).isOpenExpression = true) (t' : Turn)
    (ht' : t' ∈ done ++ [t]) (hleaves : t'.operation.leavesExpression = false) (o : ItemId)
    (ho : Part (done ++ [t]) x o) : Precedes d₁.graph.order t'.id o ∨
      ∀ p, Part (done ++ [t]) t'.result p → Precedes d₁.graph.order o p := by
  have hsub := hturn.advances.grows.order
  -- What the operands or other expressions are made of has been apart from the statements so far.
  have hold {y : ItemId} (hopen : (d.graph.item y).isOpenExpression = true) (hpart : Part done y o)
      (ht' : t' ∈ done) : Precedes d₁.graph.order t'.id o ∨
        ∀ p, Part (done ++ [t]) t'.result p → Precedes d₁.graph.order o p :=
    (h.apart y hopen t' ht' hleaves o hpart).imp (·.mono hsub) fun hbefore p hp =>
      (hbefore p (h.part_old hturn hp (h.result_lt ht'))).mono hsub
  by_cases hxlt : x < d.graph.size
  · obtain ⟨hopen, hnot⟩ := hturn.isOpenExpression_before hxlt hx
    have hpart := h.part_old hturn ho hxlt
    rcases List.mem_append.1 ht' with ht' | ht'
    · exact hold hopen hpart ht'
    · rw [List.mem_singleton.1 ht']
      exact Or.inr fun p hp => (h.waiting_precedes hturn hlast hopen hnot hpart hp).mono hsub
  · have hnew : x = t.result := by
      have hlt := (Graph.site_of_isOpenExpression hx).lt_size
      rw [hturn.size] at hlt
      rw [hturn.result]
      exact Nat.le_antisymm (Nat.le_of_lt_succ hlt) (Nat.le_of_not_lt hxlt)
    subst hnew
    have hexpression : t.operation.leavesExpression = true := by
      rw [← hturn.made.2.1]
      unfold Item.isOpenExpression at hx
      exact (Bool.and_eq_true _ _ ▸ hx).2
    rcases List.mem_append.1 ht' with ht' | ht'
    · rcases h.part_new hturn ho with rfl | ⟨y, hy, hpart⟩
      · exact Or.inl ((hlast t' ht').mono hsub)
      · exact hold (hturn.isOpenExpression_of_mem hy) hpart ht'
    · rw [List.mem_singleton.1 ht', hexpression] at hleaves
      cases hleaves

theorem statements_turn (t₁ : Turn) (ht₁ : t₁ ∈ done ++ [t]) (t₂ : Turn) (ht₂ : t₂ ∈ done ++ [t])
    (hleaves₁ : t₁.operation.leavesExpression = false) (hleaves₂ : t₂.operation.leavesExpression = false)
    (hids : Precedes d₁.graph.order t₁.id t₂.id) : Precedes d₁.graph.order t₁.result t₂.result := by
  have hnodup := hturn.advances.sound.ordered.nodup
  have hsub := hturn.advances.grows.order
  rcases List.mem_append.1 ht₁ with ht₁ | ht₁ <;> rcases List.mem_append.1 ht₂ with ht₂ | ht₂
  · have hids' := hids.of_sublist hnodup hsub (h.placed t₁ ht₁).right_mem (h.placed t₂ ht₂).right_mem
    exact (h.statements t₁ ht₁ t₂ ht₂ hleaves₁ hleaves₂ hids').mono hsub
  · rw [List.mem_singleton.1 ht₂]
    refine hturn.statement_precedes h.sound ?_ ((h.placed t₁ ht₁).trans h.sound.ordered.nodup (hlast t₁ ht₁))
    rw [(h.made t₁ ht₁).2.2, hleaves₁, Bool.not_false]
  · rw [List.mem_singleton.1 ht₁] at hids
    exact (hids.asymm hnodup ((hlast t₂ ht₂).mono hsub)).elim
  · rw [List.mem_singleton.1 ht₁, List.mem_singleton.1 ht₂] at hids
    exact (hids.irrefl hnodup).elim

omit hlast in
theorem others_turn (id : ItemId) (hid : id < base) (hstatement : (d₁.graph.item id).statement?.isSome = true)
    (t' : Turn) (ht' : t' ∈ done ++ [t]) (hleaves : t'.operation.leavesExpression = false)
    (hbefore : Precedes d₁.graph.order id t'.id) : Precedes d₁.graph.order id t'.result := by
  have hnodup := hturn.advances.sound.ordered.nodup
  have hsub := hturn.advances.grows.order
  have hlt := Nat.lt_of_lt_of_le hid h.size
  have hmem := (h.sound.ordered.mem_order id).2 hlt
  rw [(hturn.advances.grows.kept id hlt).statement] at hstatement
  rcases List.mem_append.1 ht' with ht' | ht'
  · exact (h.others id hid hstatement t' ht' hleaves
      (hbefore.of_sublist hnodup hsub hmem (h.placed t' ht').right_mem)).mono hsub
  · rw [List.mem_singleton.1 ht'] at hbefore ⊢
    exact hturn.statement_precedes h.sound hstatement
      (hbefore.of_sublist hnodup hsub hmem ((h.sound.ordered.mem_order _).2 hturn.lt_size))

theorem waiting_turn (t₁ : Turn) (ht₁ : t₁ ∈ done ++ [t]) (t₂ : Turn) (ht₂ : t₂ ∈ done ++ [t])
    (hleaves₁ : t₁.operation.leavesExpression = false) (hleaves₂ : t₂.operation.leavesExpression = false)
    (hids : Precedes d₁.graph.order t₁.id t₂.id) (o o' : ItemId) (ho : Part (done ++ [t]) t₁.result o)
    (ho' : Part (done ++ [t]) t₂.result o') : Precedes d₁.graph.order o o' ∨
      (∃ u ∈ done ++ [t], u.id = o' ∧ u.operation.leavesExpression = true) ∧
        ∀ p, Part (done ++ [t]) t₁.result p → Precedes d₁.graph.order o' p := by
  have hnodup := hturn.advances.sound.ordered.nodup
  have hsub := hturn.advances.grows.order
  have hmem {u : Turn} (hu : u ∈ done) : u ∈ done ++ [t] := List.mem_append_left _ hu
  rcases List.mem_append.1 ht₁ with ht₁ | ht₁
  · have hold {p : ItemId} (hp : Part (done ++ [t]) t₁.result p) : Part done t₁.result p :=
      h.part_old hturn hp (h.result_lt ht₁)
    rcases List.mem_append.1 ht₂ with ht₂ | ht₂
    · have hids' := hids.of_sublist hnodup hsub (h.placed t₁ ht₁).right_mem (h.placed t₂ ht₂).right_mem
      have hpart' := h.part_old hturn ho' (h.result_lt ht₂)
      refine (h.waiting t₁ ht₁ t₂ ht₂ hleaves₁ hleaves₂ hids' o o' (hold ho) hpart').imp (·.mono hsub) ?_
      rintro ⟨⟨u, hu, hleaves⟩, hbefore⟩
      exact ⟨⟨u, hmem hu, hleaves⟩, fun p hp => (hbefore p (hold hp)).mono hsub⟩
    · rw [List.mem_singleton.1 ht₂] at ho'
      rcases h.part_new hturn ho' with rfl | ⟨y, hy, hpart⟩
      · obtain ⟨u, hu, rfl⟩ := (hold ho).exists_id
        exact Or.inl ((hlast u hu).mono hsub)
      · have hopen := hturn.isOpenExpression_of_mem hy
        rcases h.apart y hopen t₁ ht₁ hleaves₁ o' hpart with hbehind | hbefore
        · left
          rcases h.within t₁ ht₁ o (hold ho) with rfl | hwithin
          · exact hbehind.mono hsub
          · exact (hwithin.trans h.sound.ordered.nodup hbehind).mono hsub
        · right
          unfold Item.isOpenExpression at hopen
          obtain ⟨u, hu, hleaves⟩ := h.leavesExpression_of_part hpart (Bool.and_eq_true _ _ ▸ hopen).2
          exact ⟨⟨u, hmem hu, hleaves⟩, fun p hp => (hbefore p (hold hp)).mono hsub⟩
  · rw [List.mem_singleton.1 ht₁] at hids
    rcases List.mem_append.1 ht₂ with ht₂ | ht₂
    · exact (hids.asymm hnodup ((hlast t₂ ht₂).mono hsub)).elim
    · rw [List.mem_singleton.1 ht₂] at hids
      exact (hids.irrefl hnodup).elim

/-- With one more turn what has been left is still arranged. -/
theorem turn : Arranged base (done ++ [t]) d₁ where
  sound := hturn.advances.sound
  size := Nat.le_trans h.size hturn.advances.grows.size
  made t' ht' := by
    rcases List.mem_append.1 ht' with ht' | ht'
    · obtain ⟨hoperation, hexpression, hstatement⟩ := h.made t' ht'
      have hid := h.sound.ordered.lt_of_mem (h.placed t' ht').right_mem
      have hresult := hturn.advances.grows.kept _ (h.result_lt ht')
      exact ⟨(hturn.advances.grows.kept _ hid).operation?.trans hoperation, hresult.expression.trans hexpression,
        hresult.statement.trans hstatement⟩
    · rw [List.mem_singleton.1 ht']
      exact ⟨(hturn.advances.grows.kept _ hturn.lt_size).operation?.trans
        (Item.operation?_of_openOperation? hturn.isOpen), hturn.made.2⟩
  operands t' ht' id hid := by
    have hkept {id : ItemId} (hlt : id < d.graph.size) (hsome : (d.graph.item id).expression?.isSome = true) :
        id < d₁.graph.size ∧ (d₁.graph.item id).expression?.isSome = true :=
      ⟨hturn.advances.grows.lt_size hlt, (hturn.advances.grows.kept id hlt).expression.trans hsome⟩
    rcases List.mem_append.1 ht' with ht' | ht'
    · exact hkept (h.operands t' ht' id hid).1 (h.operands t' ht' id hid).2
    · have hopen := hturn.isOpenExpression_of_mem (List.mem_singleton.1 ht' ▸ hid)
      have hlt := (Graph.site_of_isOpenExpression hopen).lt_size
      unfold Item.isOpenExpression at hopen
      exact hkept hlt (Bool.and_eq_true _ _ ▸ hopen).2
  placed t' ht' := by
    rcases List.mem_append.1 ht' with ht' | ht'
    · exact (h.placed t' ht').mono hturn.advances.grows.order
    · exact List.mem_singleton.1 ht' ▸ hturn.result_precedes h.sound
  within := h.within_turn hturn hlast
  ordered := h.ordered_turn hturn hlast
  apart := h.apart_turn hturn hlast
  statements := h.statements_turn hturn hlast
  others := h.others_turn hturn
  waiting := h.waiting_turn hturn hlast

end Fields

end Turn

/-- What the turns of a combination leave is arranged. -/
theorem combines (h : Arranged base done d) (hturns : Combines func d turns d')
    (hids : ((done ++ turns).map (·.id)).Sublist d.graph.order) : Arranged base (done ++ turns) d' := by
  induction hturns generalizing done with
  | done d => rwa [List.append_nil]
  | @turn d d₁ d' t turns run hturn rest ih =>
    have hassoc : done ++ t :: turns = (done ++ [t]) ++ turns := by simp
    rw [hassoc] at hids ⊢
    refine ih (h.turn hturn fun t' ht' => ?_) (hids.trans hturn.advances.grows.order)
    refine List.Sublist.trans ?_ hids
    rw [List.map_append, List.map_append]
    exact ((List.singleton_sublist.2 (List.mem_map_of_mem ht')).append (List.Sublist.refl [t.id])).trans
      (List.sublist_append_left _ _)

end Arranged

end Decompilation

end Parley
