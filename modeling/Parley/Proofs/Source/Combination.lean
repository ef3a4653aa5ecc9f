import Parley.Proofs.Source.Analysis
import Parley.Decompile.Combination
set_option autoImplicit false

/-!
# Combination of straight-line code

The operations of a function are combined from the front to the back.  The expressions in front of the
one at hand that nothing has consumed are the stack at that point: a tree leaves the expression of the
whole tree there, a statement leaves its line and no expression.
-/

namespace Parley.Source

open Fallible

/-- The front part of the body shows `done`, and behind it the items show `left`. -/
structure Combining (scene : Scene) (d : Decompilation) (done left : List ItemKind)
    (front rest : List ItemId) : Prop where
  layout : Layout scene d.graph (front ++ rest)
  setting : Setting scene d
  done : d.graph.shown front = opened done
  left : d.graph.shown rest = opened left

/-- The combination of `tokens` leaves `result`, whatever is in front and behind. -/
def Reduces (scene : Scene) (tokens result : List ItemKind) : Prop :=
  ∀ (d : Decompilation) (done left : List ItemKind) (front rest : List ItemId),
    Combining scene d done (tokens ++ left) front rest →
    ∃ d' front' block rest', rest = block ++ rest' ∧
      (block.forM (Pass.combineItem 0) : Pass Unit) d = .ok () d' ∧
      Combining scene d' (done ++ result) left front' rest'

/-- The combination of an operation takes `operands` off the stack and leaves `result`. -/
def Applies (scene : Scene) (operation : Operation) (operands : List Expr) (result : ItemKind) :
    Prop :=
  ∀ (d : Decompilation) (done left : List ItemKind) (front rest : List ItemId) (id : ItemId),
    Combining scene d (done ++ operands.map .expression) (.operation operation :: left) front
      (id :: rest) →
    d.graph.face? id = some (false, .operation operation) →
    ∃ d' front', Pass.combineItem 0 id d = .ok () d' ∧
      Combining scene d' (done ++ [result]) left front' rest

variable {scene : Scene}

theorem Reduces.append {tokens more result others : List ItemKind} (h : Reduces scene tokens result)
    (h' : Reduces scene more others) : Reduces scene (tokens ++ more) (result ++ others) := by
  intro d done left front rest hcombining
  rw [List.append_assoc] at hcombining
  obtain ⟨d₁, front₁, block, rest₁, rfl, hrun, hcombining₁⟩ := h d done _ front rest hcombining
  obtain ⟨d₂, front₂, block', rest₂, rfl, hrun', hcombining₂⟩ := h' d₁ _ left front₁ _ hcombining₁
  refine ⟨d₂, front₂, block ++ block', rest₂, by rw [List.append_assoc], ?_, ?_⟩
  · exact (forM_append_of_ok hrun).trans hrun'
  · rw [← List.append_assoc]
    exact hcombining₂

theorem reduces_nil : Reduces scene [] [] := by
  intro d done left front rest h
  exact ⟨d, front, [], rest, rfl, rfl, by simpa using h⟩

/-! ## Items that are passed over -/

theorem combineItem_of_not_operation {id : ItemId} {d : Decompilation}
    (h : (d.graph.item id).processed = true ∨ (d.graph.item id).operation? = none) :
    Pass.combineItem 0 id d = .ok () d := by
  unfold Pass.combineItem
  rw [bind_of_ok (get_apply d)]
  rcases h with h | h
  · simp only [h, if_true]
    rfl
  · simp only [h, ite_self]
    rfl

theorem forM_gone {block : List ItemId} {d : Decompilation}
    (h : ∀ id ∈ block, d.graph.face? id = none) :
    (block.forM (Pass.combineItem 0) : Pass Unit) d = .ok () d := by
  induction block with
  | nil => rfl
  | cons id rest ih =>
    have hfirst := combineItem_of_not_operation (d := d)
      (Or.inl (Item.face?_eq_none.1 (h id List.mem_cons_self)).1)
    rw [forM_cons_of_ok hfirst]
    exact ih fun other hother => h other (List.mem_cons_of_mem _ hother)

/-- Items without a face move to the front. -/
theorem Combining.next {d : Decompilation} {done left : List ItemKind} {kind : ItemKind}
    {front rest : List ItemId} (h : Combining scene d done (kind :: left) front rest) :
    ∃ gone id rest', rest = gone ++ id :: rest' ∧ (∀ other ∈ gone, d.graph.face? other = none) ∧
      d.graph.face? id = some (false, kind) ∧
      Combining scene d done (kind :: left) (front ++ gone) (id :: rest') := by
  obtain ⟨gone, id, rest', rfl, hgone, hid, hrest⟩ := List.filterMap_eq_cons_iff.1 h.left
  refine ⟨gone, id, rest', rfl, hgone, hid, ?_, h.setting, ?_, ?_⟩
  · rw [List.append_assoc]
    exact h.layout
  · rw [Graph.shown_append, h.done, Graph.shown_eq_nil hgone, List.append_nil]
  · rw [Graph.shown, List.filterMap_cons, hid]
    exact congrArg _ hrest

/-- An expression or a statement stays. -/
theorem reduces_of_not_operation (kind : ItemKind) (h : ∀ operation, kind ≠ .operation operation) :
    Reduces scene [kind] [kind] := by
  intro d done left front rest hcombining
  obtain ⟨gone, id, rest', rfl, hgone, hid, hnext⟩ := hcombining.next
  have hitem : (d.graph.item id).operation? = none := by
    rw [Item.operation?, (Item.face?_eq_open.1 hid).2]
    split
    · rename_i operation
      exact absurd rfl (h operation)
    · rfl
  refine ⟨d, front ++ gone ++ [id], gone ++ [id], rest', by simp, ?_, ?_, hnext.setting, ?_, ?_⟩
  · rw [forM_append_of_ok (forM_gone hgone),
      forM_cons_of_ok (combineItem_of_not_operation (Or.inr hitem))]
    rfl
  · rw [List.append_assoc]
    exact hnext.layout
  · rw [Graph.shown_append, hnext.done, opened_append]
    simp [Graph.shown, hid, opened]
  · have hleft := hnext.left
    rw [Graph.shown, List.filterMap_cons, hid] at hleft
    exact (List.cons.inj hleft).2

/-- An operation behind what leaves its operands. -/
theorem Reduces.apply {tokens : List ItemKind} {operation : Operation} (operands : List Expr)
    {result : ItemKind} (h : Reduces scene tokens (operands.map .expression))
    (happlies : Applies scene operation operands result) :
    Reduces scene (tokens ++ [.operation operation]) [result] := by
  intro d done left front rest hcombining
  rw [List.append_assoc] at hcombining
  obtain ⟨d₁, front₁, block, rest₁, rfl, hrun, hcombining₁⟩ := h d done _ front rest hcombining
  obtain ⟨gone, id, rest', rfl, hgone, hid, hnext⟩ := hcombining₁.next
  obtain ⟨d₂, front₂, hcombine, hcombining₂⟩ := happlies d₁ done left _ rest' id hnext hid
  refine ⟨d₂, front₂, block ++ (gone ++ [id]), rest', by simp, ?_, hcombining₂⟩
  rw [forM_append_of_ok hrun, forM_append_of_ok (forM_gone hgone), forM_cons_of_ok hcombine]
  rfl

/-! ## Operands -/

theorem map_filter_face? (g : Graph) (ids : List ItemId) :
    (ids.filter fun id => (g.face? id).isSome).map g.face? = (g.shown ids).map some := by
  induction ids with
  | nil => rfl
  | cons id rest ih =>
    cases hface : g.face? id with
    | none => simpa [Graph.shown, hface] using ih
    | some face => simpa [Graph.shown, hface] using ih

theorem isOpenExpression_of_face? {g : Graph} {id : ItemId} {expression : Expr}
    (h : g.face? id = some (false, .expression expression)) :
    (g.item id).isOpenExpression = true := by
  have hopen := Item.face?_eq_open.1 h
  simp [Item.isOpenExpression, Item.expression?, hopen.1, hopen.2]

/-- The operands of an operation are the expressions nearest before it. -/
theorem takeOperands_of_shown {g : Graph} {near : List ItemId} {operands : List Expr}
    (h : g.shown near = opened (operands.map .expression)) (far : List ItemId) :
    g.takeOperands operands.length (near ++ far) =
      ⟨near.filter fun id => (g.face? id).isSome, false⟩ := by
  induction near generalizing operands with
  | nil =>
    obtain rfl : operands = [] := by simpa [Graph.shown, opened] using h.symm
    simp [Graph.takeOperands]
  | cons id rest ih =>
    cases hface : g.face? id with
    | none =>
      obtain ⟨hprocessed, hstatement⟩ := Item.face?_eq_none.1 hface
      have hrest : g.shown rest = opened (operands.map .expression) := by
        rwa [Graph.shown, List.filterMap_cons_none hface] at h
      rw [List.filter_cons_of_neg (by simp [hface]), ← ih hrest]
      cases operands with
      | nil => cases rest <;> cases far <;> rfl
      | cons first others =>
        rw [List.length_cons, List.cons_append, Graph.takeOperands]
        simp [Item.isOpenExpression, hprocessed, hstatement]
    | some face =>
      rw [Graph.shown, List.filterMap_cons_some hface] at h
      cases operands with
      | nil => cases h
      | cons first others =>
        obtain ⟨rfl, hrest⟩ := List.cons.inj h
        rw [List.filter_cons_of_pos (by simp [hface]), List.length_cons, List.cons_append,
          Graph.takeOperands, if_pos (isOpenExpression_of_face? hface), ih hrest]

theorem combineOperation_of_kind {d d₁ : Decompilation} {id site new : ItemId} {ids : List ItemId}
    {operation : Operation} (hsetting : Setting scene d)
    (htake : d.graph.takeOperands operation.needed (d.graph.backBetween scene.start id) =
      ⟨ids, false⟩)
    (hlength : ids.length = operation.needed) (hsite : ids.getLast? = some site)
    (hkind : Pass.combineKind 0 id site (d.graph.item id).pos operation ⟨ids, false⟩ d =
      .ok new d₁) :
    Pass.combineOperation 0 id operation d =
      .ok () (d₁.onGraph fun g =>
        (Pass.moveLabel site new g).modifyAll (id :: ids) Item.markProcessed) := by
  have hcollect : Pass.collectOperands scene.start id operation.needed d = .ok ⟨ids, false⟩ d := by
    unfold Pass.collectOperands
    rw [bind_of_ok (get_apply d)]
    simp only [htake, hlength, Nat.lt_irrefl, if_false]
    rfl
  have hearliest : (Operands.mk ids false).earliest? = some site := hsite
  have hplace : (Operands.mk ids false).site id = site := by
    simp only [Operands.site, hearliest]
    rfl
  unfold Pass.combineOperation
  rw [bind_of_ok (get_apply d), hsetting.bounds, bind_of_ok hcollect]
  simp only [hplace]
  rw [bind_of_ok hkind]
  simp only [hearliest]
  rfl

/-- Moving a label changes no face. -/
theorem sameBut_moveLabel (changed : List ItemId) (earliest combined : ItemId) (g : Graph) :
    Graph.SameBut changed g (Pass.moveLabel earliest combined g) := by
  unfold Pass.moveLabel
  dsimp only
  split
  · refine (Graph.sameBut_modify_label changed g earliest ?_).trans
      (Graph.sameBut_modify_label changed _ combined ?_)
    · exact fun _ => ⟨rfl, rfl, rfl⟩
    · exact fun _ => ⟨rfl, rfl, rfl⟩
  · exact Graph.SameBut.refl changed g

/-! ## Operations on expressions -/

/-- From `d` to `d'` a new item of a kind takes the place of `site`, where the operands `ids` stay
expressions until they are marked. -/
structure Makes (scene : Scene) (d d' : Decompilation) (ids : List ItemId) (site : ItemId)
    (kind : ItemKind) : Prop where
  setting : Setting scene d'
  replaced : ∃ g, Graph.SameBut ids d.graph g ∧
    (∀ id ∈ ids, ∃ expression, g.face? id = some (false, .expression expression)) ∧
    Graph.Replaced g d'.graph site [site] kind

theorem statement?_of_face? {g : Graph} {id : ItemId} {kind : ItemKind}
    (h : g.face? id = none ∨ g.face? id = some (false, kind)) (hkind : ∀ s, kind ≠ .statement s) :
    (g.item id).statement? = none := by
  rcases h with h | h
  · exact (Item.face?_eq_none.1 h).2
  · rw [Item.statement?, (Item.face?_eq_open.1 h).2]
    split
    · rename_i statement
      exact absurd rfl (hkind statement)
    · rfl

/-- Once the operation and its operands are marked, the new item has replaced them. -/
theorem Makes.marked {d d' : Decompilation} {ids : List ItemId} {id site : ItemId}
    {kind : ItemKind} {operation : Operation} (h : Makes scene d d' ids site kind) (new : ItemId)
    (hordered : d.graph.Ordered) (hsite : site ∈ ids)
    (hid : d.graph.face? id = some (false, .operation operation)) (hnot : id ∉ ids)
    (hlt : ∀ other ∈ id :: ids, other < d.graph.size) :
    Graph.Replaced d.graph
      ((Pass.moveLabel site new d'.graph).modifyAll (id :: ids) Item.markProcessed) site (id :: ids)
      kind := by
  obtain ⟨g, hbefore, hexpressions, hreplaced⟩ := h.replaced
  have hlabel := sameBut_moveLabel (id :: ids) site new d'.graph
  have hmarks := Graph.sameBut_markAll (id :: ids) (Pass.moveLabel site new d'.graph)
  have hwider : Graph.SameBut (id :: ids) d.graph g :=
    ⟨hbefore.order, hbefore.size, hbefore.ordered, fun other hother =>
      hbefore.faces other fun hmem => hother (List.mem_cons_of_mem _ hmem)⟩
  refine hreplaced.widen hwider (hlabel.trans hmarks) ?_ ?_ ?_
  · intro other hother
    rw [List.mem_singleton.1 hother]
    exact List.mem_cons_of_mem _ hsite
  · exact fun hmem => Nat.lt_irrefl _ (hlt _ hmem)
  · intro other hother
    have hsize : other < (Pass.moveLabel site new d'.graph).size := by
      rw [hlabel.size]
      refine hreplaced.ordered.lt_of_mem ?_
      rw [hreplaced.order, hbefore.order]
      exact (Graph.sublist_placeBefore _ _ _).subset
        ((hordered.mem_order other).2 (hlt other hother))
    refine Graph.face?_modifyAll_markProcessed hother hsize ?_
    have hsame := (sameBut_moveLabel [] site new d'.graph).faces other (by simp)
    by_cases hothersite : other = site
    · subst hothersite
      exact (Item.face?_eq_none.1 (hsame.trans (hreplaced.gone other List.mem_cons_self))).2
    · rw [hreplaced.kept other (by simpa using hothersite)
        (by rw [hbefore.size]; exact Nat.ne_of_lt (hlt other hother))] at hsame
      rcases List.mem_cons.1 hother with rfl | hother
      · exact statement?_of_face? (Or.inr (hsame.trans ((hbefore.faces other hnot).trans hid))) nofun
      · obtain ⟨expression, he⟩ := hexpressions other hother
        exact statement?_of_face? (Or.inr (hsame.trans he)) nofun

/-- The operands of an operation, nearest first, among the items directly in front of it. -/
structure Located (g : Graph) (near ids : List ItemId) (operands : List Expr) : Prop where
  faces : ids.map g.face? = operands.reverse.map (fun e => some (false, .expression e))
  subset : ∀ id ∈ ids, id ∈ near
  others : ∀ id ∈ near, id ∉ ids → g.face? id = none
  nodup : ids.Nodup

theorem located_of_shown {g : Graph} {near : List ItemId} {operands : List Expr}
    (h : g.shown near = opened (operands.map .expression)) (hnodup : near.Nodup)
    (far : List ItemId) :
    ∃ ids, g.takeOperands operands.length (far ++ near).reverse = ⟨ids, false⟩ ∧
      Located g near ids operands := by
  have hshown : g.shown near.reverse = opened (operands.reverse.map .expression) := by
    rw [Graph.shown, List.filterMap_reverse]
    rw [show near.filterMap g.face? = opened (operands.map .expression) from h]
    simp [opened]
  have htake := takeOperands_of_shown hshown far.reverse
  rw [List.length_reverse, ← List.reverse_append] at htake
  refine ⟨_, htake, ?_, ?_, ?_, ?_⟩
  · rw [map_filter_face?, hshown]
    simp [opened]
  · intro id hid
    exact List.mem_reverse.1 (List.mem_of_mem_filter hid)
  · intro id hid hnot
    rw [List.mem_filter, not_and, Bool.not_eq_true, Option.isSome_eq_false_iff,
      Option.isNone_iff_eq_none] at hnot
    exact hnot (List.mem_reverse.2 hid)
  · exact (List.pairwise_reverse.2 (hnodup.imp Ne.symm)).filter _

namespace Located

variable {g : Graph} {near ids : List ItemId} {operands : List Expr} (h : Located g near ids operands)

include h

theorem length_eq : ids.length = operands.length := by
  simpa using congrArg List.length h.faces

theorem exists_farthest (hsome : operands ≠ []) : ∃ site, ids.getLast? = some site := by
  have hne : ids ≠ [] := by
    rintro rfl
    exact hsome (List.length_eq_zero_iff.1 h.length_eq.symm)
  exact ⟨ids.getLast hne, List.getLast?_eq_some_getLast hne⟩

/-- The operands stand in the same stretch of the listing as the operation behind it. -/
theorem mem_stretch {id : ItemId} : ∀ other ∈ id :: ids, other ∈ near ++ [id] := by
  intro other hother
  rcases List.mem_cons.1 hother with rfl | hother
  · exact List.mem_append_right _ List.mem_cons_self
  · exact List.mem_append_left _ (h.subset other hother)

/-- Nothing else in that stretch is shown. -/
theorem face?_stretch {id : ItemId} : ∀ other ∈ near ++ [id], other ∉ id :: ids → g.face? other = none := by
  intro other hother hnot
  rw [List.mem_cons, not_or] at hnot
  rcases List.mem_append.1 hother with hother | hother
  · exact h.others other hother hnot.2
  · exact absurd (List.mem_singleton.1 hother) hnot.1

end Located

/-- What an operation makes of its operands takes their place. -/
theorem applies_of_makes {operation : Operation} {operands : List Expr} {result : ItemKind}
    (hneeded : operation.needed = operands.length) (hsome : operands ≠ [])
    (h : ∀ (d : Decompilation) (id site : ItemId) (ids : List ItemId) (pos : UInt16),
      Setting scene d → d.graph.Ordered →
      ids.map d.graph.face? = operands.reverse.map (fun e => some (false, .expression e)) →
      (∀ other ∈ ids, other < d.graph.size) → ids.Nodup → ids.getLast? = some site →
      ∃ new d', Pass.combineKind 0 id site pos operation ⟨ids, false⟩ d = .ok new d' ∧
        Makes scene d d' ids site result) :
    Applies scene operation operands result := by
  intro d done left front rest id hcombining hid
  obtain ⟨far, near, rfl, hfar, hnear⟩ := List.filterMap_eq_append_iff.1
    (hcombining.done.trans (opened_append _ _))
  have hbody := hcombining.layout
  have hnodup := hbody.nodup.2.2.2.1
  rw [List.nodup_append, List.nodup_append] at hnodup
  obtain ⟨ids, htake, hlocated⟩ := located_of_shown hnear hnodup.1.2.1 far
  rw [← hneeded, ← hbody.backBetween] at htake
  obtain ⟨site, hsite⟩ := hlocated.exists_farthest hsome
  have hsiteMem : site ∈ ids := List.mem_of_getLast? hsite
  have hidNot : id ∉ near := fun hmem =>
    hnodup.2.2 id (List.mem_append_right _ hmem) id List.mem_cons_self rfl
  have hblockLayout : Layout scene d.graph (far ++ (near ++ [id] ++ rest)) := by
    simpa using hbody
  have hlt : ∀ other ∈ id :: ids, other < d.graph.size := fun other hother => hblockLayout.lt_size
    (List.mem_append_right _ (List.mem_append_left _ (hlocated.mem_stretch other hother)))
  -- The operation makes its result, and what is then marked has been replaced by it.
  obtain ⟨new, d', hkind, hmakes⟩ := h d id site ids (d.graph.item id).pos hcombining.setting
    hbody.ordered hlocated.faces (fun other hother => hlt other (List.mem_cons_of_mem _ hother)) hlocated.nodup hsite
  have hcombine := combineOperation_of_kind hcombining.setting htake (hlocated.length_eq.trans hneeded.symm) hsite hkind
  have hreplaced := hmakes.marked new hbody.ordered hsiteMem hid
    (fun hmem => hidNot (hlocated.subset id hmem)) hlt
  obtain ⟨hlayout, hshown, hfaces⟩ := hblockLayout.block hreplaced
    (hlocated.mem_stretch site (List.mem_cons_of_mem _ hsiteMem)) hlocated.mem_stretch hlocated.face?_stretch
  refine ⟨d'.onGraph fun g => (Pass.moveLabel site new g).modifyAll (id :: ids) Item.markProcessed,
    _, ?_, hlayout, hmakes.setting.onGraph _, ?_, ?_⟩
  · unfold Pass.combineItem
    rw [bind_of_ok (get_apply d)]
    have hopen := Item.face?_eq_open.1 hid
    simp only [hopen.1, Item.operation?, hopen.2]
    exact hcombine
  · refine hshown.trans ?_
    rw [show d.graph.shown far = opened done from hfar, opened_append]
    rfl
  · refine (Graph.shown_congr hfaces).trans ?_
    have hleft := hcombining.left
    rw [Graph.shown, List.filterMap_cons, hid] at hleft
    exact (List.cons.inj hleft).2

/-! ## Expressions as operands -/

theorem expression_of_face? {d : Decompilation} {id : ItemId} {expression : Expr}
    (h : d.graph.face? id = some (false, .expression expression)) :
    d.expression id = expression := by
  rw [Decompilation.expression, Item.expression?, (Item.face?_eq_open.1 h).2]
  rfl

theorem operand_apply (operands : Operands) (index : Nat) (d : Decompilation) :
    Pass.operand operands index d =
      .ok (operands.ids.getD index 0, d.expression (operands.ids.getD index 0)) d := rfl

theorem requireValue_of_value {pos : UInt16} {expression : Expr} (h : expression.isAddress = false)
    (d : Decompilation) : Pass.requireValue pos expression d = .ok () d := by
  rw [Pass.requireValue, h]
  rfl

section Operands

variable {d : Decompilation} {ids : List ItemId} {site : ItemId}

theorem makes_putExpression (hsetting : Setting scene d) (hordered : d.graph.Ordered)
    (hsite : site < d.graph.size)
    (hids : ∀ id ∈ ids, ∃ expression, d.graph.face? id = some (false, .expression expression))
    (hmem : site ∈ ids) (expression : Expr) :
    Makes scene d (d.onGraph (·.putExpression site expression)) ids site (.expression expression) :=
  by
  obtain ⟨old, hold⟩ := hids site hmem
  exact ⟨hsetting.onGraph _, d.graph, Graph.SameBut.refl _ _, hids,
    Graph.replaced_putExpression hordered hsite (statement?_of_face? (Or.inr hold) nofun) expression⟩

theorem makes_replaceByStatement {d₁ : Decompilation} (hsetting : Setting scene d₁)
    (hordered : d.graph.Ordered) (hsame : Graph.SameBut ids d.graph d₁.graph)
    (hsite : site < d.graph.size)
    (hids : ∀ id ∈ ids, ∃ expression, d₁.graph.face? id = some (false, .expression expression))
    (hmem : site ∈ ids) (statement : Statement) :
    Makes scene d (d₁.onGraph (·.replaceByStatement site statement)) ids site
      (.statement statement) := by
  obtain ⟨old, hold⟩ := hids site hmem
  rw [← hsame.size] at hsite
  exact ⟨hsetting.onGraph _, d₁.graph, hsame, hids,
    Graph.replaced_replaceByStatement (hsame.ordered hordered) hsite
      (statement?_of_face? (Or.inr hold) nofun) statement⟩

end Operands

/-- An operation on one operand. -/
theorem applies_one {operation : Operation} {value : Expr} {result : ItemKind}
    (hneeded : operation.needed = 1)
    (h : ∀ (d : Decompilation) (id site : ItemId) (pos : UInt16), Setting scene d →
      d.graph.Ordered → site < d.graph.size →
      d.graph.face? site = some (false, .expression value) →
      ∃ new d', Pass.combineKind 0 id site pos operation ⟨[site], false⟩ d = .ok new d' ∧
        Makes scene d d' [site] site result) :
    Applies scene operation [value] result := by
  refine applies_of_makes hneeded (by simp) ?_
  intro d id site ids pos hsetting hordered hfaces hlt _ hsite
  obtain ⟨only, rfl⟩ : ∃ only, ids = [only] := List.length_eq_one_iff.1 (by
    simpa using congrArg List.length hfaces)
  cases hsite
  exact h d id only pos hsetting hordered (hlt only List.mem_cons_self) (List.cons.inj hfaces).1

/-- An operation on two operands. -/
theorem applies_two {operation : Operation} {first second : Expr} {result : ItemKind}
    (hneeded : operation.needed = 2)
    (h : ∀ (d : Decompilation) (id last site : ItemId) (pos : UInt16), Setting scene d →
      d.graph.Ordered → site < d.graph.size → last < d.graph.size → last ≠ site →
      d.graph.face? site = some (false, .expression first) →
      d.graph.face? last = some (false, .expression second) →
      ∃ new d', Pass.combineKind 0 id site pos operation ⟨[last, site], false⟩ d = .ok new d' ∧
        Makes scene d d' [last, site] site result) :
    Applies scene operation [first, second] result := by
  refine applies_of_makes hneeded (by simp) ?_
  intro d id site ids pos hsetting hordered hfaces hlt hnodup hsite
  obtain ⟨last, other, rfl⟩ : ∃ last other, ids = [last, other] := List.length_eq_two.1 (by
    simpa using congrArg List.length hfaces)
  cases hsite
  obtain ⟨hlast, hrest⟩ := List.cons.inj hfaces
  refine h d id last other pos hsetting hordered (hlt other (by simp)) (hlt last (by simp)) ?_
    (List.cons.inj hrest).1 hlast
  intro he
  rw [List.nodup_cons] at hnodup
  exact hnodup.1 (by simp [he])

/-! ## Operators and loads -/

theorem combineKind_unary (opcode : UnaryOpcode) (id site : ItemId) (pos : UInt16)
    (operands : Operands) :
    Pass.combineKind 0 id site pos (.simple opcode 1 true .int) operands =
      Pass.combineUnary site pos opcode operands := by
  obtain ⟨opcode, hclass⟩ := opcode
  cases opcode <;> first | rfl | cases hclass

theorem combineKind_binary (opcode : BinaryOpcode) (id site : ItemId) (pos : UInt16)
    (operands : Operands) :
    Pass.combineKind 0 id site pos (.simple opcode 2 true .int) operands =
      Pass.combineBinary site pos opcode operands := by
  obtain ⟨opcode, hclass⟩ := opcode
  cases opcode <;> first | rfl | cases hclass

theorem applies_unary (opcode : UnaryOpcode) {value : Expr} (hvalue : value.isAddress = false) :
    Applies scene (.simple opcode 1 true .int) [value] (.expression (.unary opcode value)) := by
  refine applies_one rfl ?_
  intro d id site pos hsetting hordered hsite hface
  refine ⟨d.graph.size, _, ?_, makes_putExpression hsetting hordered hsite ?_ List.mem_cons_self _⟩
  · rw [combineKind_unary]
    unfold Pass.combineUnary
    rw [bind_of_ok (operand_apply _ _ d)]
    simp only [List.getD_cons_zero, expression_of_face? hface]
    rw [bind_of_ok (requireValue_of_value hvalue d)]
    exact Pass.addExpression_apply site _ d
  · intro other hother
    rw [List.mem_singleton.1 hother]
    exact ⟨value, hface⟩

theorem addressOf_place {id : ItemId} {d : Decompilation} {source : String}
    (h : d.expression id = .atom source true) :
    Pass.addressOf id d = .ok (.atom source true) d := by
  have hexpression : Pass.expression id d = .ok (.atom source true) d := by
    rw [← h]
    rfl
  unfold Pass.addressOf
  rw [bind_of_ok hexpression]
  exact hexpression

/-- A binary operator with its operands, the constant of a test for equality on the right. -/
def binaryExpr (opcode : Opcode) (first second : Expr) : Expr :=
  if opcode = .testEq ∧ first.immediate?.isSome then .binary opcode second first
  else .binary opcode first second

theorem applies_binary (opcode : BinaryOpcode) {first second : Expr}
    (hfirst : first.isAddress = false) (hsecond : second.isAddress = false) :
    Applies scene (.simple opcode 2 true .int) [first, second]
      (.expression (binaryExpr opcode first second)) := by
  refine applies_two rfl ?_
  intro d id last site pos hsetting hordered hsite _ _ hface hlast
  refine ⟨d.graph.size, _, ?_, makes_putExpression hsetting hordered hsite ?_ (by simp) _⟩
  · rw [combineKind_binary]
    unfold Pass.combineBinary
    rw [bind_of_ok (operand_apply _ _ d)]
    simp only [List.getD_cons_zero, expression_of_face? hlast]
    rw [bind_of_ok (operand_apply _ _ d)]
    simp only [List.getD_cons_succ, List.getD_cons_zero, expression_of_face? hface]
    unfold binaryExpr
    split
    · rw [bind_of_ok (requireValue_of_value hsecond d), bind_of_ok (requireValue_of_value hfirst d)]
      exact Pass.addExpression_apply site _ d
    · rw [bind_of_ok (requireValue_of_value hfirst d), bind_of_ok (requireValue_of_value hsecond d)]
      exact Pass.addExpression_apply site _ d
  · intro other hother
    rcases List.mem_cons.1 hother with rfl | hother
    · exact ⟨second, hlast⟩
    · rw [List.mem_singleton.1 hother]
      exact ⟨first, hface⟩

theorem applies_load (source : String) :
    Applies scene (.simple .fetchm 1 true .int) [.atom source true]
      (.expression (.atom source false)) := by
  refine applies_one rfl ?_
  intro d id site pos hsetting hordered hsite hface
  refine ⟨d.graph.size, _, ?_, makes_putExpression hsetting hordered hsite ?_ List.mem_cons_self _⟩
  · change Pass.combineLoad site pos ⟨[site], false⟩ d = _
    unfold Pass.combineLoad
    rw [bind_of_ok (operand_apply _ _ d)]
    simp only [List.getD_cons_zero]
    rw [bind_of_ok (addressOf_place (expression_of_face? hface))]
    exact Pass.addExpression_apply site _ d
  · intro other hother
    rw [List.mem_singleton.1 hother]
    exact ⟨_, hface⟩

/-! ## Returns, speech and stores -/

theorem applies_return (value : Expr) :
    Applies scene (.simple .saveReg 1 false .void) [value]
      (.statement (.plain ("return " ++ value.text ++ ";"))) := by
  refine applies_one rfl ?_
  intro d id site pos hsetting hordered hsite hface
  refine ⟨d.graph.size, _, ?_, makes_replaceByStatement hsetting hordered (Graph.SameBut.refl _ _)
    hsite ?_ List.mem_cons_self _⟩
  · change Pass.combineReturn site ⟨[site], false⟩ d = _
    unfold Pass.combineReturn
    rw [bind_of_ok (operand_apply _ _ d)]
    simp only [List.getD_cons_zero, expression_of_face? hface]
    rfl
  · intro other hother
    rw [List.mem_singleton.1 hother]
    exact ⟨value, hface⟩

theorem stringLiteral?_of_lt {d : Decompilation} (hsetting : Setting scene d) {id : UInt16}
    (h : id.toNat < scene.names.strings.length) :
    d.stringLiteral? id = some (scene.names.literal id) := by
  rw [Decompilation.stringLiteral?, hsetting.strings, Names.literal]
  simp [h, Decompilation.escapeLineFeeds]

theorem applies_say {id : UInt16} (h : id.toNat < scene.names.strings.length) :
    Applies scene (.simple .sayOp 1 false .void) [.const id]
      (.statement (.plain ("say(" ++ scene.names.literal id ++ ");"))) := by
  refine applies_one rfl ?_
  intro d item site pos hsetting hordered hsite hface
  refine ⟨d.graph.size, _, ?_, makes_replaceByStatement hsetting hordered (Graph.SameBut.refl _ _)
    hsite ?_ List.mem_cons_self _⟩
  · change Pass.combineSay site pos ⟨[site], false⟩ d = _
    unfold Pass.combineSay
    rw [bind_of_ok (operand_apply _ _ d)]
    simp only [List.getD_cons_zero, expression_of_face? hface, Expr.immediate?]
    rw [bind_of_ok (get_apply d), stringLiteral?_of_lt hsetting h]
    rfl
  · intro other hother
    rw [List.mem_singleton.1 hother]
    exact ⟨_, hface⟩

theorem splitOnce?_of_notMem {mark : Char} {text : List Char} (h : mark ∉ text) :
    Text.splitOnce? [mark] text = none := by
  induction text with
  | nil => rfl
  | cons c rest ih =>
    rw [List.mem_cons, not_or] at h
    have hprefix : [mark].isPrefixOf (c :: rest) = false := by
      simp [List.isPrefixOf, h.1]
    rw [Text.splitOnce?, hprefix, ih h.2]
    rfl

/-- A variable is no element of an array, so what is stored there is no menu answer. -/
theorem menuAnswer?_of_identifier {d : Decompilation} {id : ItemId} {target : String}
    (h : isIdentifier target.toList = true) (value : UInt16) :
    Pass.menuAnswer? d id target value = none := by
  have hnot : '[' ∉ target.toList := by
    intro hmem
    exact absurd (isWordChar_of_isIdentifier h _ hmem) (by decide)
  have hmentions : Pass.mentions target "[" = false := by
    rw [Pass.mentions, show "[".toList = ['['] from rfl, splitOnce?_of_notMem hnot]
    rfl
  rw [Pass.menuAnswer?, Pass.isMenuAnswer, hmentions]
  rfl

theorem isIdentifier_place (hnames : scene.names.WellNamed) (place : Place) :
    isIdentifier (place.render scene.names).toList = true := by
  cases place with
  | localVar index => exact isIdentifier_decimal (by decide) _
  | global slot => exact Names.isIdentifier_global hnames slot

/-- What was pushed for a variable is read as its address. -/
theorem addressOf_pushed {d : Decompilation} {place : Place} {id : ItemId}
    (hsetting : Setting scene d) (hid : id < d.graph.size)
    (hface : d.graph.face? id = some (false, .expression place.pushed)) :
    ∃ d₁, Pass.addressOf id d = .ok (.atom (place.render scene.names) true) d₁ ∧
      Setting scene d₁ ∧ Graph.SameBut [id] d.graph d₁.graph ∧
      d₁.graph.face? id = some (false, .expression (.atom (place.render scene.names) true)) := by
  have hexpression := expression_of_face? hface
  cases place with
  | localVar index =>
    exact ⟨d, addressOf_place hexpression, hsetting, Graph.SameBut.refl _ _, hface⟩
  | global slot =>
    have hsame : Graph.SameBut [id] d.graph
        (d.graph.modify id (·.withExpression (.atom (d.globalName slot) true))) := by
      refine Graph.sameBut_modify List.mem_cons_self d.graph ?_
      exact fun _ => rfl
    have hnew : (d.graph.modify id (·.withExpression (.atom (d.globalName slot) true))).face? id =
        some (false, .expression (.atom (scene.names.global slot) true)) := by
      rw [Graph.face?, Graph.item_modify_self hid, ← hsetting.globalName]
      exact Item.face?_of_open (Item.face?_eq_open.1 hface).1
    refine ⟨d.onGraph (·.modify id (·.withExpression (.atom (d.globalName slot) true))), ?_,
      hsetting.onGraph _, hsame, hnew⟩
    have hexpression' : Pass.expression id d = .ok (.const slot) d := by
      rw [show (Expr.const slot) = d.expression id from hexpression.symm]
      rfl
    unfold Pass.addressOf
    rw [bind_of_ok hexpression']
    have hread := expression_of_face?
      (d := d.onGraph (·.modify id (·.withExpression (.atom (d.globalName slot) true)))) hnew
    change EStateM.Result.ok (Decompilation.expression _ id) _ = _
    rw [hread]
    rfl

theorem combineStore_apply {d d₁ : Decompilation} {id site last : ItemId} {pos : UInt16}
    (swaps : Bool) {target : String} {value : Expr}
    (haddress : Pass.addressOf (if swaps then last else site) d = .ok (.atom target true) d₁)
    (hvalue : d₁.expression (if swaps then site else last) = value)
    (hisValue : value.isAddress = false) (htarget : isIdentifier target.toList = true) :
    Pass.combineStore id site pos (storeOperation swaps) ⟨[last, site], false⟩ d =
      .ok d₁.graph.size
        (d₁.onGraph (·.replaceByStatement site (.plain (target ++ " = " ++ value.text ++ ";")))) := by
  have hexpression : Pass.expression (if swaps then site else last) d₁ = .ok value d₁ := by
    rw [← hvalue]
    rfl
  have hanswer : (value.immediate?.bind (Pass.menuAnswer? d₁ id target)) = none := by
    cases value.immediate? with
    | none => rfl
    | some constant => exact menuAnswer?_of_identifier htarget constant
  unfold Pass.combineStore
  rw [bind_of_ok (operand_apply _ _ d)]
  simp only [List.getD_cons_zero]
  rw [bind_of_ok (operand_apply _ _ d)]
  simp only [List.getD_cons_succ, List.getD_cons_zero, storeOperation]
  rw [bind_of_ok haddress, bind_of_ok hexpression, bind_of_ok (get_apply d₁)]
  have hisAddress : (Expr.atom target true).isAddress = true := rfl
  have htext : (Expr.atom target true).text = target := rfl
  have hline : target ++ Pass.storeMark ++ (value.text ++ ";") =
      target ++ " = " ++ value.text ++ ";" := by
    rw [Pass.storeMark, String.append_assoc, String.append_assoc, String.append_assoc]
  simp only [hisAddress, hisValue, htext, hanswer, Option.getD_none, hline]
  exact Pass.replaceByStatement_apply site _ d₁

/-- The line of a store. -/
def storeLine (names : Names) (place : Place) (value : Expr) : Statement :=
  .plain (place.render names ++ " = " ++ value.text ++ ";")

theorem applies_store (hnames : scene.names.WellNamed) (place : Place) {value : Expr}
    (hvalue : value.isAddress = false) :
    Applies scene (storeOperation false) [place.pushed, value]
      (.statement (storeLine scene.names place value)) := by
  refine applies_two rfl ?_
  intro d id last site pos hsetting hordered hsite _ hne hface hlast
  obtain ⟨d₁, haddress, hsetting₁, hsame, hnew⟩ := addressOf_pushed hsetting hsite hface
  have hlast₁ : d₁.graph.face? last = some (false, .expression value) :=
    (hsame.faces last (by simpa using hne)).trans hlast
  have hwider : Graph.SameBut [last, site] d.graph d₁.graph :=
    ⟨hsame.order, hsame.size, hsame.ordered, fun other hother =>
      hsame.faces other fun hmem => hother (List.mem_cons_of_mem _ hmem)⟩
  refine ⟨d₁.graph.size, _, combineStore_apply false haddress
    (expression_of_face? hlast₁) hvalue (isIdentifier_place hnames place),
    makes_replaceByStatement hsetting₁ hordered hwider hsite ?_ (by simp) _⟩
  intro other hother
  rcases List.mem_cons.1 hother with rfl | hother
  · exact ⟨value, hlast₁⟩
  · rw [List.mem_singleton.1 hother]
    exact ⟨_, hnew⟩

theorem applies_swapped_store (hnames : scene.names.WellNamed) (place : Place) {value : Expr}
    (hvalue : value.isAddress = false) :
    Applies scene (storeOperation true) [value, place.pushed]
      (.statement (storeLine scene.names place value)) := by
  refine applies_two rfl ?_
  intro d id last site pos hsetting hordered hsite hlastSize hne hface hlast
  obtain ⟨d₁, haddress, hsetting₁, hsame, hnew⟩ := addressOf_pushed hsetting hlastSize hlast
  have hface₁ : d₁.graph.face? site = some (false, .expression value) :=
    (hsame.faces site (by simpa using hne.symm)).trans hface
  have hwider : Graph.SameBut [last, site] d.graph d₁.graph :=
    ⟨hsame.order, hsame.size, hsame.ordered, fun other hother =>
      hsame.faces other fun hmem => hother (by
        rw [List.mem_singleton.1 hmem]
        exact List.mem_cons_self)⟩
  refine ⟨d₁.graph.size, _, combineStore_apply true haddress
    (expression_of_face? hface₁) hvalue (isIdentifier_place hnames place),
    makes_replaceByStatement hsetting₁ hordered hwider hsite ?_ (by simp) _⟩
  intro other hother
  rcases List.mem_cons.1 hother with rfl | hother
  · exact ⟨_, hnew⟩
  · rw [List.mem_singleton.1 hother]
    exact ⟨value, hface₁⟩

/-! ## Trees and statements -/

theorem binaryExpr_expr (names : Names) (opcode : BinaryOpcode) (left right : Tree) :
    binaryExpr opcode (left.expr names) (right.expr names) =
      (Tree.binary opcode left right).expr names := by
  rw [binaryExpr, Tree.expr, Tree.swapsSides, Tree.immediate?_expr]
  simp

/-- A tree leaves its expression. -/
theorem reduces_tree (tree : Tree) :
    Reduces scene (tree.tokens scene.names) [.expression (tree.expr scene.names)] := by
  induction tree with
  | const value => exact reduces_of_not_operation _ nofun
  | localVar index => exact reduces_of_not_operation _ nofun
  | param offset =>
    exact (reduces_of_not_operation (.expression _) nofun).apply [_]
      (applies_load _)
  | global slot => exact reduces_of_not_operation _ nofun
  | unary opcode operand ih =>
    exact ih.apply [_]
      (applies_unary opcode (Tree.isAddress_expr scene.names operand))
  | binary opcode left right ihLeft ihRight =>
    rw [← binaryExpr_expr, Tree.tokens, ← List.append_assoc]
    exact (ihLeft.append ihRight).apply [_, _]
      (applies_binary opcode (Tree.isAddress_expr scene.names left)
        (Tree.isAddress_expr scene.names right))

theorem reduces_push (place : Place) :
    Reduces scene [.expression place.pushed] [.expression place.pushed] :=
  reduces_of_not_operation _ nofun

/-- A statement leaves its line. -/
theorem reduces_stmt (hnames : scene.names.WellNamed) {stmt : Stmt}
    (hspeakable : stmt.Speakable scene.names) :
    Reduces scene (stmt.tokens scene.names)
      [.statement (.plain (stmt.render scene.names))] := by
  cases stmt with
  | assign place value valueFirst =>
    have hvalue := Tree.isAddress_expr scene.names value
    rw [Stmt.render, ← Tree.text_expr]
    cases valueFirst with
    | false =>
      exact ((reduces_push place).append (reduces_tree value)).apply [_, _]
        (applies_store hnames place hvalue)
    | true =>
      rw [Stmt.tokens, List.append_cons]
      exact ((reduces_tree value).append (reduces_push place)).apply [_, _]
        (applies_swapped_store hnames place hvalue)
  | say id =>
    exact (reduces_of_not_operation (.expression _) nofun).apply [_]
      (applies_say hspeakable)
  | «return» value =>
    rw [Stmt.render, ← Tree.text_expr]
    exact (reduces_tree value).apply [_] (applies_return _)
  | exit => exact reduces_of_not_operation _ nofun

/-- The lines of statements. -/
def bodyLines (names : Names) (body : List Stmt) : List ItemKind :=
  body.map fun stmt => .statement (.plain (stmt.render names))

theorem reduces_body (hnames : scene.names.WellNamed) {body : List Stmt}
    (hspeakable : ∀ stmt ∈ body, stmt.Speakable scene.names) :
    Reduces scene (bodyTokens scene.names body) (bodyLines scene.names body) := by
  induction body with
  | nil => exact reduces_nil
  | cons stmt rest ih =>
    exact (reduces_stmt hnames (hspeakable stmt List.mem_cons_self)).append
      (ih fun other hother => hspeakable other (List.mem_cons_of_mem _ hother))

/-- Combination leaves the lines of the statements. -/
theorem combine_straight (hnames : scene.names.WellNamed) {body : List Stmt}
    (hspeakable : ∀ stmt ∈ body, stmt.Speakable scene.names) {d : Decompilation}
    {ids : List ItemId} (hlayout : Layout scene d.graph ids) (hsetting : Setting scene d)
    (hshown : d.graph.shown ids = opened (bodyTokens scene.names body)) :
    ∃ d' ids', Pass.combine 0 d = .ok () d' ∧ Layout scene d'.graph ids' ∧ Setting scene d' ∧
      d'.graph.shown ids' = opened (bodyLines scene.names body) := by
  obtain ⟨d', front, block, rest, rfl, hrun, hcombining⟩ :=
    reduces_body hnames hspeakable d [] [] [] ids ⟨hlayout, hsetting, rfl, by simpa using hshown⟩
  have hgone : ∀ id ∈ rest, d'.graph.face? id = none :=
    List.filterMap_eq_nil_iff.1 hcombining.left
  refine ⟨d', front ++ rest, ?_, hcombining.layout, hcombining.setting, ?_⟩
  · unfold Pass.combine
    rw [bind_of_ok (get_apply d), hsetting.body hlayout, forM_append_of_ok hrun]
    exact forM_gone hgone
  · rw [Graph.shown_append, hcombining.done, Graph.shown_eq_nil hgone, List.append_nil]
    rfl

end Parley.Source
