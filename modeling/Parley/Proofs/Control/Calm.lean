import Parley.Proofs.Control.Line
import Parley.Proofs.Decompile.Advance
set_option autoImplicit false

/-!
# Passes that leave the control structure alone

What is done to a function before and behind the recovery of its control structures writes no line of them and
marks no branch that tests a condition, and the expressions that it makes stand inside of the function.  Such a pass
is composed of such parts.
-/

namespace Parley

open Fallible

/-! ## Items -/

namespace Item

section Outline

variable {old new : Item} (h : new.kind.outline = old.kind.outline)

include h

theorem opcodeItem?_of_outline : new.opcodeItem? = old.opcodeItem? := by
  unfold opcodeItem?
  cases hold : old.kind <;> cases hnew : new.kind <;> simp_all [ItemKind.outline]

theorem expression?_of_outline : new.expression?.isSome = old.expression?.isSome := by
  unfold expression?
  cases hold : old.kind <;> cases hnew : new.kind <;> simp_all [ItemKind.outline]

theorem statement?_of_outline (hnone : old.statement? = none) : new.statement? = none := by
  unfold statement? at *
  cases hold : old.kind <;> cases hnew : new.kind <;> simp_all [ItemKind.outline]

end Outline

/-- What an item keeps while the control structure is left alone. -/
structure Steady (old new : Item) : Prop where
  pos : new.pos = old.pos
  outline : new.kind.outline = old.kind.outline
  processed : old.processed = true → new.processed = true
  line : new.controlLine? = old.controlLine?
  branch : old.isConditional = true → new.processed = old.processed

namespace Steady

theorem refl (item : Item) : item.Steady item := ⟨rfl, rfl, id, rfl, fun _ => rfl⟩

variable {a b c item : Item}

theorem trans (h : a.Steady b) (h' : b.Steady c) : a.Steady c where
  pos := h'.pos.trans h.pos
  outline := h'.outline.trans h.outline
  processed := h'.processed ∘ h.processed
  line := h'.line.trans h.line
  branch hbranch := (h'.branch ((isConditional_of_opcodeItem? (opcodeItem?_of_outline h.outline)).trans
    hbranch)).trans (h.branch hbranch)

theorem markProcessed (hstatement : item.statement? = none) (hbranch : item.isConditional = false) :
    item.Steady item.markProcessed := by
  refine ⟨rfl, rfl, fun _ => rfl, ?_, fun h => ?_⟩
  · rw [controlLine?_of_processed rfl, controlLine?_of_statement? hstatement]
  · rw [hbranch] at h
    cases h

theorem withLabel (item : Item) (label : Option String) (xrefCount : Nat) :
    item.Steady { item with label, xrefCount } := ⟨rfl, rfl, id, rfl, fun _ => rfl⟩

/-- An expression may become another one. -/
theorem withExpression (h : item.expression?.isSome = true) (expression : Expr) :
    item.Steady (item.withExpression expression) := by
  obtain ⟨pos, label, xrefCount, processed, kind⟩ := item
  cases kind with
  | expression old => exact ⟨rfl, rfl, id, rfl, fun _ => rfl⟩
  | _ => cases h

/-- A statement outside of the control structure may become a comment. -/
theorem commented (hstatement : item.statement?.isSome = true) (h : item.controlLine? = none) (text : String) :
    item.Steady (item.withText text).markProcessed := by
  obtain ⟨pos, label, xrefCount, processed, kind⟩ := item
  cases kind with
  | statement old =>
    refine ⟨rfl, rfl, fun _ => rfl, (controlLine?_of_processed rfl).trans h.symm, fun hbranch => ?_⟩
    cases hbranch
  | _ => cases hstatement

end Steady

end Item

namespace Graph

/-- No line of the control structure begins like the name of a local variable, so none of them can be mistaken for
a store. -/
def Legible (g : Graph) : Prop :=
  ∀ id line, (g.item id).controlLine? = some line → beginsWith Pass.localMark line.text = false

/-- An item that may be marked without a trace in the control structure. -/
structure Inert (g : Graph) (id : ItemId) : Prop where
  lt_size : id < g.size
  statement : (g.item id).statement? = none
  branch : (g.item id).isConditional = false

theorem inert_of_opcode? {g : Graph} {id : ItemId} {opcode : Opcode} (h : (g.item id).opcode? = some opcode)
    (hopcode : opcode.isConditional = false) : g.Inert id := by
  have hitem := Item.isOpcodeItem_of_opcode? h
  refine ⟨lt_size_of_isOpcodeItem hitem, Item.statement?_of_isOpcodeItem hitem, ?_⟩
  rw [Item.isConditional, h, Option.any_some, hopcode]

theorem inert_of_isOpenOpcode {g : Graph} {id : ItemId} {opcode : Opcode}
    (h : (g.item id).isOpenOpcode opcode = true) (hopcode : opcode.isConditional = false) : g.Inert id :=
  inert_of_opcode? (Item.opcode?_of_isOpenOpcode h) hopcode

theorem inert_of_expression? {g : Graph} {id : ItemId} (h : (g.item id).expression?.isSome = true) : g.Inert id := by
  obtain ⟨hop, hstatement⟩ := Item.of_expression? h
  refine ⟨lt_size_of_kind fun hkind => by simp [Item.expression?, hkind] at h, hstatement, ?_⟩
  rw [Item.isConditional, Item.opcode?, hop]
  rfl

theorem inert_of_boundary {g : Graph} {id : ItemId} (hid : id < g.size)
    (h : (g.item id).kind = .functionStart ∨ (g.item id).kind = .functionEnd) : g.Inert id := by
  rcases h with h | h <;> exact ⟨hid, by rw [Item.statement?, h],
    by simp [Item.isConditional, Item.opcode?, Item.opcodeItem?, h]⟩

theorem inert_of_operation? {g : Graph} {id : ItemId} (h : (g.item id).operation?.isSome = true) : g.Inert id := by
  unfold Item.operation? at h
  refine ⟨lt_size_of_kind fun hkind => by simp [hkind] at h, ?_, ?_⟩
  · unfold Item.statement?
    cases hkind : (g.item id).kind <;> simp_all
  · unfold Item.isConditional Item.opcode? Item.opcodeItem?
    cases hkind : (g.item id).kind <;> simp_all

end Graph

/-! ## Listings -/

namespace Decompilation

variable {d d' d'' : Decompilation} {start stop id site : ItemId}

/-- The second decompilation is the first one with a longer listing, but with the same control structure. -/
structure Calm (start stop : ItemId) (d d' : Decompilation) : Prop where
  ordered : d'.graph.Ordered
  longer : d.graph.Extends d'.graph
  outline : ∀ id < d.graph.size, (d'.graph.item id).kind.outline = (d.graph.item id).kind.outline
  lines : ∀ id, (d'.graph.item id).controlLine? = (d.graph.item id).controlLine?
  branches : ∀ id, (d.graph.item id).isConditional = true →
    (d'.graph.item id).processed = (d.graph.item id).processed
  made : ∀ id, d.graph.size ≤ id → (d'.graph.item id).expression?.isSome = true → d'.graph.Within start stop id
  frames : d'.frames = d.frames
  ranges : d'.loopRanges = d.loopRanges

namespace Calm

theorem refl (hd : d.graph.Ordered) : d.Calm start stop d where
  ordered := hd
  longer := Graph.Extends.refl _
  outline _ _ := rfl
  lines _ := rfl
  branches _ _ := rfl
  made id hid h := by
    rw [Graph.item_of_size_le hid] at h
    cases h
  frames := rfl
  ranges := rfl

theorem op (h : d.Calm start stop d') (hid : id < d.graph.size) :
    (d'.graph.item id).opcodeItem? = (d.graph.item id).opcodeItem? :=
  Item.opcodeItem?_of_outline (h.outline id hid)

theorem carries (h : d.Calm start stop d') : d.graph.Carries d'.graph :=
  ⟨h.longer, fun _ => h.op, fun id _ => h.lines id⟩

theorem trans (h : d.Calm start stop d') (h' : d'.Calm start stop d'') : d.Calm start stop d'' where
  ordered := h'.ordered
  longer := h.longer.trans h'.longer
  outline id hid := (h'.outline id (Nat.lt_of_lt_of_le hid h.longer.size)).trans (h.outline id hid)
  lines id := (h'.lines id).trans (h.lines id)
  branches id hbranch := by
    have hlt := Graph.lt_size_of_isOpcodeItem (Item.isOpcodeItem_of_isConditional hbranch)
    rw [h'.branches id ((Item.isConditional_of_opcodeItem? (h.op hlt)).trans hbranch), h.branches id hbranch]
  made id hid hexpression := by
    by_cases hlt : id < d'.graph.size
    · rw [Item.expression?_of_outline (h'.outline id hlt)] at hexpression
      exact (h.made id hid hexpression).mono h'.longer.order
    · exact h'.made id (Nat.le_of_not_lt hlt) hexpression
  frames := h'.frames.trans h.frames
  ranges := h'.ranges.trans h.ranges

theorem inert (h : d.Calm start stop d') (hid : d.graph.Inert id) : d'.graph.Inert id :=
  ⟨Nat.lt_of_lt_of_le hid.lt_size h.longer.size,
    Item.statement?_of_outline (h.outline id hid.lt_size) hid.statement,
    (Item.isConditional_of_opcodeItem? (h.op hid.lt_size)).trans hid.branch⟩

theorem legible (h : d.Calm start stop d') (hd : d.graph.Legible) : d'.graph.Legible :=
  fun id line hline => hd id line ((h.lines id).symm.trans hline)

end Calm

theorem Calm.within {a b : ItemId} (h : d.Calm a b d') (hid : d.graph.Within start stop id) :
    d'.graph.Within start stop id := hid.mono h.longer.order

/-- An item may be changed in what is not part of the control structure. -/
theorem calm_modify (hd : d.graph.Ordered) {f : Item → Item} (hf : (d.graph.item id).Steady (f (d.graph.item id)))
    (hpos : ∀ item, (f item).pos = item.pos) : d.Calm start stop (d.onGraph (·.modify id f)) := by
  have hsteady (other : ItemId) : (d.graph.item other).Steady ((d.graph.modify id f).item other) := by
    rw [Graph.item_modify]
    split
    · rename_i h
      rw [h.1]
      exact hf
    · exact .refl _
  refine ⟨hd.modify id hpos, ⟨?_, ?_, List.Sublist.refl _, fun other _ => ?_, fun other _ =>
    (hsteady other).processed, fun other hother => ?_⟩, fun other _ => (hsteady other).outline,
    fun other => (hsteady other).line, fun other => (hsteady other).branch, fun other hother h => ?_, rfl, rfl⟩
  · exact Nat.le_of_eq (Graph.size_modify d.graph id f).symm
  · exact (Graph.size_modify d.graph id f).trans
  · exact congrArg₂ Prod.mk (hsteady other).pos
      (congrArg (Option.map _) (Item.opcodeItem?_of_outline (hsteady other).outline))
  · rw [onGraph, Graph.item_of_size_le (by rwa [Graph.size_modify])]
    rfl
  · rw [onGraph, Graph.item_of_size_le (by rwa [Graph.size_modify])] at h
    cases h

theorem calm_markProcessed (hd : d.graph.Ordered) (hid : d.graph.Inert id) :
    d.Calm start stop (d.onGraph (·.markProcessed id)) :=
  calm_modify hd (Item.Steady.markProcessed hid.statement hid.branch) fun _ => rfl

theorem calm_marking {ids : List ItemId} (hd : d.graph.Ordered) (hids : ∀ id ∈ ids, d.graph.Inert id) :
    d.Calm start stop (d.marking ids) := by
  induction ids generalizing d with
  | nil => exact Calm.refl hd
  | cons id rest ih =>
    have hfirst : d.Calm start stop (d.onGraph (·.markProcessed id)) :=
      calm_markProcessed hd (hids id List.mem_cons_self)
    exact hfirst.trans (ih hfirst.ordered fun other hother => hfirst.inert (hids other (List.mem_cons_of_mem _ hother)))

/-- A new item that is no line of the control structure may be put before another.  An expression may be put inside
of the function only. -/
theorem calm_insertBefore (hd : d.graph.Ordered) (hsite : site < d.graph.size) {item : Item}
    (hpos : item.pos = (d.graph.item site).pos) (hopcode : item.isOpcodeItem = false)
    (hline : item.controlLine? = none) (hwithin : item.expression?.isSome = true → d.graph.Within start stop site) :
    d.Calm start stop (d.onGraph (·.insertBefore site item)) := by
  have hold {id : ItemId} (hid : id < d.graph.size) : (d.graph.insertBefore site item).item id = d.graph.item id :=
    Graph.item_insertBefore_of_ne (Nat.ne_of_lt hid) site item
  have hnew := Graph.item_insertBefore_new d.graph site item
  have hbehind {id : ItemId} (hid : d.graph.size < id) : (d.graph.insertBefore site item).item id = default :=
    Graph.item_of_size_le (by rwa [Graph.size_insertBefore])
  have hmem := (hd.mem_order site).2 hsite
  refine ⟨hd.insertBefore hsite hpos, ⟨?_, fun hempty => absurd hsite (by simp [hempty]), ?_, fun id hid => ?_,
    fun id hid hmarked => ?_, fun id hid => ?_⟩, fun id hid => ?_, fun id => ?_, fun id hbranch => ?_,
    fun id hid hexpression => ?_, rfl, rfl⟩
  · rw [onGraph, Graph.size_insertBefore]
    exact Nat.le_succ _
  · exact Graph.sublist_placeBefore _ _ _
  · exact congrArg Item.code (hold hid)
  · exact (congrArg Item.processed (hold hid)).trans hmarked
  · rcases Nat.eq_or_lt_of_le hid with rfl | hlt
    · exact (congrArg Item.isOpcodeItem hnew).trans hopcode
    · exact congrArg Item.isOpcodeItem (hbehind hlt)
  · exact congrArg (ItemKind.outline ∘ Item.kind) (hold hid)
  · rcases Nat.lt_trichotomy id d.graph.size with hlt | rfl | hlt
    · exact congrArg Item.controlLine? (hold hlt)
    · rw [Graph.item_of_size_le (Nat.le_refl _)]
      exact (congrArg Item.controlLine? hnew).trans hline
    · rw [Graph.item_of_size_le (Nat.le_of_lt hlt)]
      exact congrArg Item.controlLine? (hbehind hlt)
  · exact congrArg Item.processed
      (hold (Graph.lt_size_of_isOpcodeItem (Item.isOpcodeItem_of_isConditional hbranch)))
  · change ((d.graph.insertBefore site item).item id).expression?.isSome = true at hexpression
    rcases Nat.eq_or_lt_of_le hid with rfl | hlt
    · rw [hnew] at hexpression
      obtain ⟨hfront, hback⟩ := hwithin hexpression
      have hnodup := (hd.insertBefore hsite hpos).nodup
      exact ⟨precedes_placeBefore_new hd.nodup hfront,
        (precedes_placeBefore_site hmem).trans hnodup (hback.mono (Graph.sublist_placeBefore _ _ _))⟩
    · rw [hbehind hlt] at hexpression
      cases hexpression

/-- A statement outside of the control structure may be put before an item. -/
theorem calm_addStatement (hd : d.graph.Ordered) (hsite : site < d.graph.size) {statement : Statement}
    (hrole : statement.role.isControl = false) :
    d.Calm start stop (d.onGraph (·.addStatement site statement)) := by
  refine calm_insertBefore hd hsite rfl rfl ?_ fun hexpression => ?_
  · rw [Item.controlLine?_statement, hrole]
    rfl
  · cases hexpression

/-- A statement outside of the control structure may take the place of an item. -/
theorem calm_replaceByStatement (hd : d.graph.Ordered) (h : d.graph.Inert site) {statement : Statement}
    (hrole : statement.role.isControl = false) :
    d.Calm start stop (d.onGraph (·.replaceByStatement site statement)) := by
  have hmarked : d.Calm start stop (d.onGraph (·.markProcessed site)) := calm_markProcessed hd h
  exact hmarked.trans (calm_addStatement hmarked.ordered (hmarked.inert h).lt_size hrole)

/-- Decompilations with the same listing, the same functions and the same loops. -/
theorem Calm.congr {e : Decompilation} (h : d.Calm start stop d') (hgraph : e.graph = d'.graph)
    (hframes : e.frames = d'.frames) (hranges : e.loopRanges = d'.loopRanges) : d.Calm start stop e := by
  obtain ⟨hordered, hlonger, houtline, hlines, hbranches, hmade, hsameFrames, hsameRanges⟩ := h
  rw [← hgraph] at hordered hlonger houtline hlines hbranches hmade
  exact ⟨hordered, hlonger, houtline, hlines, hbranches, hmade, hframes.trans hsameFrames,
    hranges.trans hsameRanges⟩

end Decompilation

/-! ## Passes -/

namespace Pass

variable {α β : Type} {d d' : Decompilation} {start stop site : ItemId}

/-- A pass leaves the control structure alone, whether it succeeds or faults. -/
def Calm (start stop : ItemId) (x : Pass α) (d : Decompilation) : Prop :=
  d.graph.Ordered → d.graph.Legible → d.Calm start stop (final (x d))

theorem Calm.of_ok {x : Pass α} {a : α} (hx : Calm start stop x d) (hd : d.graph.Ordered)
    (hlegible : d.graph.Legible) (h : x d = .ok a d') : d.Calm start stop d' := by
  have hfinal := hx hd hlegible
  rwa [h] at hfinal

theorem calm_of_final {x : Pass α} (hgraph : (final (x d)).graph = d.graph)
    (hframes : (final (x d)).frames = d.frames) (hranges : (final (x d)).loopRanges = d.loopRanges) :
    Calm start stop x d :=
  fun hd _ => (Decompilation.Calm.refl hd).congr hgraph hframes hranges

theorem calm_pure (a : α) : Calm start stop (pure a) d := fun hd _ => .refl hd

theorem calm_throw (fault : DecompileFault) : Calm start stop (throw fault : Pass α) d := fun hd _ => .refl hd

theorem calm_get_bind {f : Decompilation → Pass α} (h : Calm start stop (f d) d) :
    Calm start stop (get >>= f) d := h

theorem Calm.bind {x : Pass α} {f : α → Pass β} (hx : Calm start stop x d)
    (hf : ∀ a d', x d = .ok a d' → d.Calm start stop d' → Calm start stop (f a) d') :
    Calm start stop (x >>= f) d := by
  intro hd hlegible
  have hfirst := hx hd hlegible
  cases h : x d with
  | ok a d' =>
    rw [h] at hfirst
    rw [bind_of_ok h]
    exact hfirst.trans (hf a d' h hfirst hfirst.ordered (hfirst.legible hlegible))
  | error fault d' =>
    rw [h] at hfirst
    rw [bind_of_error h]
    exact hfirst

theorem Calm.bind_pure {x : Pass α} (hx : Calm start stop x d) (b : β) :
    Calm start stop (x >>= fun _ => pure b) d :=
  hx.bind fun _ _ _ _ => calm_pure b

/-- A part that is done on a condition. -/
theorem calm_when {c : Prop} [Decidable c] {x : Pass PUnit} {f : PUnit → Pass β} (hx : c → Calm start stop x d)
    (hf : ∀ a d', d.Calm start stop d' → Calm start stop (f a) d') :
    Calm start stop (if c then x >>= f else f ⟨⟩) d := by
  split
  · rename_i h
    exact (hx h).bind fun a d' _ => hf a d'
  · exact fun hd hlegible => hf ⟨⟩ d (.refl hd) hd hlegible

theorem calm_foldlM {f : β → α → Pass β} {ids : List α} {b : β}
    (hf : ∀ id ∈ ids, ∀ b d', d.Calm start stop d' → Calm start stop (f b id) d') :
    Calm start stop (ids.foldlM f b) d := by
  induction ids generalizing b d with
  | nil => exact calm_pure b
  | cons id rest ih =>
    intro hd hlegible
    have hstep : Calm start stop (f b id >>= fun b => rest.foldlM f b) d :=
      Calm.bind (hf id List.mem_cons_self b d (.refl hd)) fun b' d' _ hfirst =>
        ih fun other hother b'' d'' hnext => hf other (List.mem_cons_of_mem _ hother) b'' d'' (hfirst.trans hnext)
    exact hstep hd hlegible

theorem calm_forM {f : α → Pass PUnit} {ids : List α}
    (hf : ∀ id ∈ ids, ∀ d', d.Calm start stop d' → Calm start stop (f id) d') :
    Calm start stop (ids.forM f) d := by
  induction ids generalizing d with
  | nil => exact calm_pure _
  | cons id rest ih =>
    intro hd hlegible
    have hstep : Calm start stop (f id >>= fun _ => rest.forM f) d :=
      Calm.bind (hf id List.mem_cons_self d (.refl hd)) fun _ d' _ hfirst =>
        ih fun other hother d'' hnext => hf other (List.mem_cons_of_mem _ hother) d'' (hfirst.trans hnext)
    exact hstep hd hlegible

/-! ### Changes -/

theorem calm_onFunction (func : Nat) {f : FunctionInfo → FunctionInfo}
    (hf : ∀ info, (f info).frame = info.frame) : Calm start stop (modify (·.onFunction func f)) d :=
  calm_of_final rfl (frames_onFunction d func hf) rfl

theorem calm_onVariables (func : Nat) (f : Variables → Variables) :
    Calm start stop (modify (·.onVariables func f)) d := calm_onFunction func fun _ => rfl

theorem calm_markProcessed (h : d.graph.Inert site) : Calm start stop (onGraph (·.markProcessed site)) d :=
  fun hd _ => Decompilation.calm_markProcessed hd h

theorem calm_markAll {ids : List ItemId} (h : ∀ id ∈ ids, d.graph.Inert id) :
    Calm start stop (onGraph (·.modifyAll ids Item.markProcessed)) d :=
  fun hd _ => Decompilation.calm_marking hd h

theorem calm_markOpcodes {pattern : List Opcode} (h : d.graph.Begins site pattern)
    (hpattern : ∀ opcode ∈ pattern, opcode.isConditional = false) :
    Calm start stop (onGraph (·.markOpcodes site pattern.length)) d :=
  calm_markAll fun id hid => by
    obtain ⟨opcode, hmem, hopcode⟩ := h.exists_opcode hid
    exact Graph.inert_of_opcode? hopcode (hpattern opcode hmem)

/-! ### New items -/

theorem calm_addExpression (h : d.graph.Inert site) (hwithin : d.graph.Within start stop site) (expression : Expr) :
    Calm start stop (addExpression site expression) d := by
  intro hd _
  rw [addExpression_apply, final_ok]
  have hsteady : (d.graph.item site).Steady (d.graph.item site).withoutLabel.markProcessed :=
    (Item.Steady.withLabel _ none 0).trans (Item.Steady.markProcessed h.statement h.branch)
  have hmarked : d.Calm start stop (d.onGraph (·.modify site fun old => old.withoutLabel.markProcessed)) :=
    Decompilation.calm_modify hd hsteady fun _ => rfl
  have hpos := congrArg Prod.fst (hmarked.longer.code site h.lt_size)
  exact hmarked.trans (Decompilation.calm_insertBefore hmarked.ordered (hmarked.inert h).lt_size hpos.symm rfl rfl
    fun _ => hmarked.within hwithin)

theorem calm_addOperation (h : d.graph.Inert site) (operation : Operation) :
    Calm start stop (addOperation site operation) d := by
  intro hd _
  rw [addOperation_apply, final_ok]
  have hmarked : d.Calm start stop (d.onGraph (·.markProcessed site)) := Decompilation.calm_markProcessed hd h
  have hpos := congrArg Prod.fst (hmarked.longer.code site h.lt_size)
  refine hmarked.trans (Decompilation.calm_insertBefore hmarked.ordered (hmarked.inert h).lt_size hpos.symm rfl rfl
    fun hexpression => ?_)
  cases hexpression

theorem calm_replaceByStatement (h : d.graph.Inert site) {statement : Statement}
    (hrole : statement.role.isControl = false) : Calm start stop (replaceByStatement site statement) d := by
  intro hd _
  rw [replaceByStatement_apply, final_ok]
  exact Decompilation.calm_replaceByStatement hd h hrole

end Pass

end Parley
