import Parley.Proofs.Decompile.Analysis
set_option autoImplicit false

/-!
# What causes the effects of a listing

Speech, stores, calls and the end of the conversation are effects.  The analysis of a function puts an operation or
a statement before each instruction that has one, and from then on nothing comes between the two: an item that has
been replaced is no site for further ones.  So effects stand in the listing in the order of their instructions.
-/

namespace Parley

open Fallible

/-- Whether an operation does more than compute. -/
def Operation.hasEffect (operation : Operation) : Bool :=
  match operation.opcode with
  | .sayOp | .sto | .call | .calli => true
  | _ => false

/-- The opcode of the instruction whose effect an item shows. -/
def Item.effect? (item : Item) : Option Opcode :=
  match item.kind with
  | .operation operation => if operation.hasEffect then some operation.opcode else none
  | .statement statement => if statement = .plain "exit;" then some .exitOp else none
  | _ => none

theorem Item.effect?_congr {item item' : Item} (h : item'.kind = item.kind) : item'.effect? = item.effect? := by
  unfold effect?
  rw [h]

theorem Item.opcode?_congr {item item' : Item} (h : item'.kind = item.kind) : item'.opcode? = item.opcode? := by
  unfold opcode? opcodeItem?
  rw [h]

/-- What shows an effect is no instruction. -/
theorem Item.isOpcodeItem_of_effect? {item : Item} (h : item.effect?.isSome = true) : item.isOpcodeItem = false := by
  unfold effect? at h
  unfold isOpcodeItem opcodeItem?
  cases hkind : item.kind <;> simp_all

/-- What stands behind the first of two neighbours and is not the second stands behind both. -/
theorem Adjoins.precedes_right {order : List ItemId} {a b x : ItemId} (h : Adjoins order a b)
    (horder : order.Nodup) (hx : Precedes order a x) (hne : x ≠ b) : Precedes order b x := by
  refine (precedes_total h.precedes.right_mem hx.right_mem hne.symm).resolve_right fun hxb => ?_
  rcases h.eq_or_precedes_left horder hxb with rfl | hxa
  · exact hx.irrefl horder
  · exact hx.asymm horder hxa

namespace Graph

variable {g g' g'' : Graph} {a b c e site : ItemId} {item : Item}

/-- What an instruction is taken together with begins with the instruction itself or, where it calls an imported
function, with the push of the number of arguments directly before it. -/
inductive Leads (g : Graph) (c : ItemId) : ItemId → Prop where
  | self : Leads g c c
  | count {front : ItemId} (hcall : (g.item c).isOpcode .calli = true)
      (hpush : (g.item front).isOpcode .pushi = true) (h : Adjoins g.order front c) : Leads g c front

/-- An instruction causes the effect that an item shows: the item has taken its place, and stands directly before
what the instruction is taken together with. -/
structure Causes (g : Graph) (c e : ItemId) : Prop where
  isEffect : (g.item e).effect?.isSome = true
  opcode : (g.item c).opcode? = (g.item e).effect?
  replaced : (g.item c).processed = true
  place : ∃ front, g.Leads c front ∧ (g.item front).processed = true ∧ Adjoins g.order e front

theorem lt_size_of_effect? (h : (g.item e).effect?.isSome = true) : e < g.size :=
  lt_size_of_kind fun hkind => by simp [Item.effect?, hkind] at h

/-- Mostly an item stands directly before the instruction that it has replaced. -/
theorem causes_of_next? (hg : g.Ordered) (heffect : (g.item e).effect?.isSome = true)
    (hopcode : (g.item c).opcode? = (g.item e).effect?) (hreplaced : (g.item c).processed = true)
    (hnext : g.next? e = some c) : g.Causes c e :=
  ⟨heffect, hopcode, hreplaced, c, .self, hreplaced, hg.adjoins_next? (lt_size_of_effect? heffect) hnext⟩

namespace Causes

theorem isOpcodeItem (h : g.Causes c e) : (g.item c).isOpcodeItem = true := by
  obtain ⟨opcode, hopcode⟩ := Option.isSome_iff_exists.1 h.isEffect
  exact Item.isOpcodeItem_of_opcode? (h.opcode.trans hopcode)

/-- An effect stands before what causes it. -/
theorem precedes (h : g.Causes c e) (hg : g.Ordered) : Precedes g.order e c := by
  obtain ⟨front, hleads, -, hfront⟩ := h.place
  cases hleads with
  | self => exact hfront.precedes
  | count _ _ hcall => exact hfront.precedes.trans hg.nodup hcall.precedes

/-- What shows an effect and stands behind another effect stands behind what causes that. -/
theorem precedes_effect (h : g.Causes c e) (hg : g.Ordered) {other : ItemId}
    (hother : (g.item other).effect?.isSome = true) (hbehind : Precedes g.order e other) :
    Precedes g.order c other := by
  have hne {id : ItemId} (hid : (g.item id).isOpcodeItem = true) : other ≠ id := by
    rintro rfl
    rw [Item.isOpcodeItem_of_effect? hother] at hid
    cases hid
  obtain ⟨front, hleads, -, hfront⟩ := h.place
  cases hleads with
  | self => exact hfront.precedes_right hg.nodup hbehind (hne h.isOpcodeItem)
  | count _ hpush hcall =>
    have hbetween := hfront.precedes_right hg.nodup hbehind (hne (Item.isOpcodeItem_of_isOpcode hpush))
    exact hcall.precedes_right hg.nodup hbetween (hne h.isOpcodeItem)

/-- Effects stand in the order of the instructions that cause them. -/
theorem pos_lt {c' e' : ItemId} (h : g.Causes c e) (h' : g.Causes c' e') (hg : g.Sound)
    (he : Precedes g.order e e') : (g.item c).pos < (g.item c').pos := by
  have hbehind := h.precedes_effect hg.ordered h'.isEffect he
  exact hg.spaced c c' (hbehind.trans hg.ordered.nodup (h'.precedes hg.ordered)) h.isOpcodeItem h'.isOpcodeItem

end Causes

/-! ## Marks -/

/-- At most marks are new, and what is said about items besides their kinds. -/
structure Marks (g g' : Graph) : Prop where
  order : g'.order = g.order
  size : g'.size = g.size
  kind : ∀ id, (g'.item id).kind = (g.item id).kind
  processed : ∀ id, (g.item id).processed = true → (g'.item id).processed = true

namespace Marks

theorem refl (g : Graph) : Marks g g := ⟨rfl, rfl, fun _ => rfl, fun _ => id⟩

theorem trans (h : Marks g g') (h' : Marks g' g'') : Marks g g'' :=
  ⟨h'.order.trans h.order, h'.size.trans h.size, fun id => (h'.kind id).trans (h.kind id), fun id =>
    h'.processed id ∘ h.processed id⟩

theorem opcode? (h : Marks g g') (id : ItemId) : (g'.item id).opcode? = (g.item id).opcode? :=
  Item.opcode?_congr (h.kind id)

end Marks

theorem marks_modify (g : Graph) (id : ItemId) {f : Item → Item} (hkind : ∀ item, (f item).kind = item.kind)
    (hprocessed : ∀ item, item.processed = true → (f item).processed = true) : Marks g (g.modify id f) := by
  refine ⟨rfl, size_modify g id f, modify_keeps hkind g id, fun other hother => ?_⟩
  rw [item_modify]
  split
  · rename_i hid
    exact hprocessed _ (hid.1 ▸ hother)
  · exact hother

theorem marks_markProcessed (g : Graph) (id : ItemId) : Marks g (g.markProcessed id) :=
  marks_modify g id (fun _ => rfl) fun _ _ => rfl

theorem marks_markAll (g : Graph) (ids : List ItemId) : Marks g (g.modifyAll ids Item.markProcessed) := by
  induction ids generalizing g with
  | nil => exact .refl g
  | cons id rest ih => exact (marks_markProcessed g id).trans (ih _)

/-! ## Traces -/

/-- All effects that are new in the second graph have their causes there, and items that had been replaced have
kept what stood directly before them. -/
structure Traced (g g' : Graph) : Prop where
  size : g.size ≤ g'.size
  kind : ∀ id < g.size, (g'.item id).kind = (g.item id).kind
  processed : ∀ id < g.size, (g.item id).processed = true → (g'.item id).processed = true
  adjoins : ∀ a b, (g.item b).processed = true → Adjoins g.order a b → Adjoins g'.order a b
  causes : ∀ e, g.size ≤ e → (g'.item e).effect?.isSome = true → ∃ c, g'.Causes c e

theorem Marks.traced (h : Marks g g') : Traced g g' where
  size := Nat.le_of_eq h.size.symm
  kind id _ := h.kind id
  processed id _ := h.processed id
  adjoins _ _ _ hadjoins := h.order ▸ hadjoins
  causes e he hsome := by
    rw [item_of_size_le (h.size.symm ▸ he)] at hsome
    cases hsome

theorem lt_size_of_processed {id : ItemId} (h : (g.item id).processed = true) : id < g.size := by
  by_contra hge
  rw [item_of_size_le (Nat.le_of_not_lt hge)] at h
  cases h

theorem Leads.mono {front : ItemId} (h : g.Leads c front) (htraced : Traced g g')
    (hreplaced : (g.item c).processed = true) : g'.Leads c front := by
  cases h with
  | self => exact .self
  | count hcall hpush h =>
    have hopcode {id : ItemId} {opcode : Opcode} (hid : (g.item id).isOpcode opcode = true) :
        (g'.item id).isOpcode opcode = true := by
      have hlt := lt_size_of_isOpcodeItem (Item.isOpcodeItem_of_isOpcode hid)
      rwa [Item.isOpcode, Item.opcode?_congr (htraced.kind id hlt)]
    exact .count (hopcode hcall) (hopcode hpush) (htraced.adjoins front c hreplaced h)

/-- What causes an effect still causes it later. -/
theorem Causes.mono (h : g.Causes c e) (htraced : Traced g g') : g'.Causes c e := by
  have he := Item.effect?_congr (htraced.kind e (lt_size_of_effect? h.isEffect))
  have hlt := lt_size_of_isOpcodeItem h.isOpcodeItem
  have hopcode := Item.opcode?_congr (htraced.kind c hlt)
  obtain ⟨front, hleads, hmarked, hadjoins⟩ := h.place
  exact ⟨he ▸ h.isEffect, hopcode.trans (h.opcode.trans he.symm), htraced.processed c hlt h.replaced, front,
    hleads.mono htraced h.replaced, htraced.processed front (lt_size_of_processed hmarked) hmarked,
    htraced.adjoins e front hmarked hadjoins⟩

theorem Traced.trans (h : Traced g g') (h' : Traced g' g'') : Traced g g'' where
  size := Nat.le_trans h.size h'.size
  kind id hid := (h'.kind id (Nat.lt_of_lt_of_le hid h.size)).trans (h.kind id hid)
  processed id hid hmarked := h'.processed id (Nat.lt_of_lt_of_le hid h.size) (h.processed id hid hmarked)
  adjoins a b hmarked hadjoins := by
    exact h'.adjoins a b (h.processed b (lt_size_of_processed hmarked) hmarked) (h.adjoins a b hmarked hadjoins)
  causes e he hsome := by
    by_cases hlt : e < g'.size
    · rw [Item.effect?_congr (h'.kind e hlt)] at hsome
      obtain ⟨c, hc⟩ := h.causes e he hsome
      exact ⟨c, hc.mono h'⟩
    · exact h'.causes e (Nat.le_of_not_lt hlt) hsome

/-! ### A new item -/

section Insertion

variable (h : Marks g g')

include h

/-- A new item shows the effect of the instruction that is led by what it is put before. -/
theorem Marks.causes_insertBefore (hsite : site ∈ g.order) (hleads : g.Leads c site)
    (hsome : item.effect?.isSome = true) (hopcode : (g.item c).opcode? = item.effect?)
    (hmarked : (g'.item c).processed = true) (hreplaced : (g'.item site).processed = true) :
    (g'.insertBefore site item).Causes c g'.size := by
  have hold {id : ItemId} (hid : (g'.item id).processed = true) : (g'.insertBefore site item).item id = g'.item id :=
    item_insertBefore_of_ne (Nat.ne_of_lt (lt_size_of_processed hid)) site item
  refine ⟨?_, ?_, (congrArg Item.processed (hold hmarked)).trans hmarked, site, ?_,
    (congrArg Item.processed (hold hreplaced)).trans hreplaced, adjoins_placeBefore_site (h.order ▸ hsite)⟩
  · rwa [item_insertBefore_new]
  · rw [item_insertBefore_new, hold hmarked, h.opcode?, hopcode]
  · cases hleads with
    | self => exact .self
    | count hcall hpush hadjoins =>
      refine .count ?_ ?_ ?_
      · rwa [hold hmarked, Item.isOpcode, h.opcode?]
      · rwa [hold hreplaced, Item.isOpcode, h.opcode?]
      · rw [order_insertBefore, h.order]
        refine hadjoins.placeBefore ?_
        rintro rfl
        cases (of_decide_eq_true hcall).symm.trans (of_decide_eq_true hpush)

/-- An item is put before one that has not been replaced before. -/
theorem Marks.traced_insertBefore (hopen : (g.item site).processed = false)
    (hcauses : item.effect?.isSome = true → ∃ c, (g'.insertBefore site item).Causes c g'.size) :
    Traced g (g'.insertBefore site item) := by
  have hold {id : ItemId} (hid : id < g.size) : (g'.insertBefore site item).item id = g'.item id :=
    item_insertBefore_of_ne (Nat.ne_of_lt (h.size ▸ hid)) site item
  refine ⟨?_, fun id hid => ?_, fun id hid hmarked => ?_, fun a b hmarked hadjoins => ?_, fun e he hsome => ?_⟩
  · rw [size_insertBefore, h.size]
    exact Nat.le_succ _
  · rw [hold hid, h.kind]
  · rw [hold hid, h.processed id hmarked]
  · rw [order_insertBefore, h.order]
    refine hadjoins.placeBefore ?_
    rintro rfl
    rw [hopen] at hmarked
    cases hmarked
  · have hlt := lt_size_of_effect? hsome
    rw [size_insertBefore, h.size] at hlt
    have hnew : e = g'.size := (Nat.le_antisymm (Nat.le_of_lt_succ hlt) he).trans h.size.symm
    rw [hnew, item_insertBefore_new] at hsome
    exact hnew ▸ hcauses hsome

end Insertion

end Graph

/-! ## Passes -/

namespace Pass

variable {α β : Type} {d d' : Decompilation} {g : Graph} {site call stop : ItemId}

/-- A pass marks items at most. -/
def Marking (x : Pass α) (d : Decompilation) : Prop := d.graph.Marks (final (x d)).graph

/-- A pass accounts for the effects that it puts into a listing, where items of it have perhaps been marked
before. -/
def Traces (g : Graph) (x : Pass α) (d : Decompilation) : Prop := g.Marks d.graph → g.Traced (final (x d)).graph

theorem marking_pure (a : α) : Marking (pure a) d := .refl d.graph

theorem marking_throw (fault : DecompileFault) : Marking (throw fault : Pass α) d := .refl d.graph

theorem marking_get_bind {f : Decompilation → Pass α} (h : Marking (f d) d) : Marking (get >>= f) d := h

theorem marking_onFunction (func : Nat) (f : FunctionInfo → FunctionInfo) :
    Marking (modify (·.onFunction func f)) d := .refl d.graph

theorem marking_markProcessed (id : ItemId) : Marking (onGraph (·.markProcessed id)) d :=
  Graph.marks_markProcessed d.graph id

theorem marking_markOpcodes (id : ItemId) (count : Nat) : Marking (onGraph (·.markOpcodes id count)) d :=
  Graph.marks_markAll d.graph _

theorem Marking.bind {x : Pass α} {f : α → Pass β} (hx : Marking x d) (hf : ∀ a d', Marking (f a) d') :
    Marking (x >>= f) d := by
  unfold Marking at hx ⊢
  cases h : x d with
  | ok a d' =>
    rw [h] at hx
    rw [bind_of_ok h]
    exact hx.trans (hf a d')
  | error fault d' =>
    rw [h] at hx
    rw [bind_of_error h]
    exact hx

theorem Marking.traces {x : Pass α} (hx : Marking x d) : Traces g x d := fun h => (h.trans hx).traced

theorem Marking.bind_traces {x : Pass α} {f : α → Pass β} (hx : Marking x d)
    (hf : ∀ a d', x d = .ok a d' → d.graph.Marks d'.graph → Traces g (f a) d') : Traces g (x >>= f) d := by
  intro hmarks
  unfold Marking at hx
  cases h : x d with
  | ok a d' =>
    rw [h] at hx
    rw [bind_of_ok h]
    exact hf a d' h hx (hmarks.trans hx)
  | error fault d' =>
    rw [h] at hx
    rw [bind_of_error h]
    exact (hmarks.trans hx).traced

theorem Traces.bind_marking {x : Pass α} {f : α → Pass β} (hx : Traces g x d) (hf : ∀ a d', Marking (f a) d') :
    Traces g (x >>= f) d := by
  intro hmarks
  have hfirst := hx hmarks
  cases h : x d with
  | ok a d' =>
    rw [h] at hfirst
    rw [bind_of_ok h]
    exact hfirst.trans (hf a d').traced
  | error fault d' =>
    rw [h] at hfirst
    rw [bind_of_error h]
    exact hfirst

theorem Traces.bind_pure {x : Pass α} (hx : Traces g x d) (b : β) : Traces g (x >>= fun _ => pure b) d :=
  hx.bind_marking fun _ _ => marking_pure b

theorem traces_get_bind {f : Decompilation → Pass α} (h : Traces g (f d) d) : Traces g (get >>= f) d := h

/-! ### Parts that mark items -/

theorem marking_consumeLoad (id : ItemId) : Marking (consumeLoad id) d := by
  refine marking_get_bind ?_
  split
  · exact marking_pure false
  · exact (marking_markProcessed _).bind fun _ _ => marking_pure true

theorem marking_consumeCleanup : Marking (consumeCleanup call stop) d := Graph.marks_markAll d.graph _

theorem marking_importedName (pos id : UInt16) : Marking (importedName pos id) d := by
  rw [Marking, importedName_apply]
  split <;> exact .refl _

theorem marking_noteCaller (func callee : Nat) : Marking (noteCaller func callee) d := by
  rw [Marking, noteCaller, modify_apply, final_ok]
  split <;> exact .refl _

theorem marking_enteredFunction (func : Nat) (target : UInt16) (label : Option String) :
    Marking (enteredFunction func target label) d := by
  refine marking_get_bind ?_
  dsimp only
  split <;> split
  · exact marking_pure none
  · split
    · exact marking_pure _
    · exact marking_throw _
  · exact marking_pure none
  · split
    · exact marking_pure _
    · exact marking_throw _

/-! ### New items -/

section Sites

variable (hopen : (g.item site).processed = false)

include hopen

theorem traces_addExpression (expression : Expr) : Traces g (addExpression site expression) d := by
  intro hmarks
  rw [addExpression_apply, final_ok]
  have hmarked := Graph.marks_modify d.graph site (f := fun old => old.withoutLabel.markProcessed)
    (fun _ => rfl) fun _ _ => rfl
  refine (hmarks.trans hmarked).traced_insertBefore hopen fun hsome => ?_
  cases hsome

variable (hg : g.Ordered) (hsite : site < g.size)

include hg hsite

/-- An operation takes the place of what leads the instruction whose effect it shows. -/
theorem traces_addOperation {operation : Operation}
    (hcause : operation.hasEffect = true → ∃ c, g.Leads c site ∧
      (g.item c).opcode? = some operation.opcode ∧ (c = site ∨ (d.graph.item c).processed = true)) :
    Traces g (addOperation site operation) d := by
  intro hmarks
  rw [addOperation_apply, final_ok]
  have hmarked := hmarks.trans (Graph.marks_markProcessed d.graph site)
  have hreplaced : ((d.graph.markProcessed site).item site).processed = true :=
    congrArg Item.processed (Graph.item_modify_self (hmarks.size ▸ hsite) _)
  refine hmarked.traced_insertBefore hopen fun hsome => ?_
  have heffect : (Item.ofKind (d.graph.item site).pos (.operation operation)).effect? =
      if operation.hasEffect then some operation.opcode else none := rfl
  have hhas : operation.hasEffect = true := by
    by_contra hnot
    rw [heffect, if_neg hnot] at hsome
    cases hsome
  obtain ⟨c, hleads, hopcode, hc⟩ := hcause hhas
  refine ⟨c, hmarked.causes_insertBefore ((hg.mem_order site).2 hsite) hleads hsome ?_ ?_ hreplaced⟩
  · rw [heffect, if_pos hhas, hopcode]
  · rcases hc with rfl | hc
    · exact hreplaced
    · exact (Graph.marks_markProcessed d.graph site).processed c hc

/-- An operation may take the place of the instruction itself. -/
theorem traces_addOperation_self {operation : Operation}
    (hopcode : operation.hasEffect = true → (g.item site).opcode? = some operation.opcode) :
    Traces g (addOperation site operation) d :=
  traces_addOperation hopen hg hsite fun hhas => ⟨site, .self, hopcode hhas, Or.inl rfl⟩

theorem traces_exit (hopcode : (g.item site).opcode? = some .exitOp) :
    Traces g (replaceByStatement site (.plain "exit;")) d := by
  intro hmarks
  rw [replaceByStatement_apply, final_ok]
  have hmarked := hmarks.trans (Graph.marks_markProcessed d.graph site)
  have hreplaced : ((d.graph.markProcessed site).item site).processed = true :=
    congrArg Item.processed (Graph.item_modify_self (hmarks.size ▸ hsite) _)
  exact hmarked.traced_insertBefore hopen fun hsome =>
    ⟨site, hmarked.causes_insertBefore ((hg.mem_order site).2 hsite) .self hsome hopcode hreplaced hreplaced⟩

/-! ### Instructions -/

omit hg hsite in
theorem traces_addElement (func : Nat) : Traces g (addElement func site) d := by
  refine traces_get_bind (Marking.bind_traces (marking_onFunction func _) fun _ _ _ _ => ?_)
  exact (traces_addExpression hopen _).bind_marking fun _ _ => marking_markOpcodes site _

omit hg hsite in
theorem traces_addVariable (func : Nat) : Traces g (addVariable func site) d := by
  refine traces_get_bind ((marking_consumeLoad site).bind_traces fun loaded _ _ _ => ?_)
  dsimp only
  split <;> exact Marking.bind_traces (marking_onFunction func _) fun _ _ _ _ =>
    (traces_addExpression hopen _).bind_pure _

omit hg hsite in
theorem traces_addImmediate : Traces g (addImmediate site) d := by
  refine traces_get_bind ((marking_consumeLoad site).bind_traces fun loaded _ _ _ => ?_)
  exact (traces_addExpression hopen _).bind_pure _

theorem traces_addStore (hopcode : (g.item site).opcode? = some .sto) : Traces g (addStore site) d := by
  refine traces_get_bind ?_
  dsimp only
  split
  · refine (marking_markProcessed _).bind_traces fun _ _ _ _ => ?_
    exact (traces_addOperation_self hopen hg hsite fun _ => hopcode).bind_pure _
  · exact (traces_addOperation_self hopen hg hsite fun _ => hopcode).bind_pure _

theorem traces_addLocalCall (func : Nat) (stop : ItemId) (hopcode : (g.item site).opcode? = some .call) :
    Traces g (addLocalCall func site stop) d := by
  refine traces_get_bind (marking_consumeCleanup.bind_traces fun cleanup _ _ _ => ?_)
  refine (traces_addOperation_self hopen hg hsite fun _ => hopcode).bind_marking fun _ _ => ?_
  refine (marking_enteredFunction func _ _).bind fun callee? _ => ?_
  cases callee? with
  | none => exact marking_pure none
  | some callee => exact (marking_noteCaller func callee).bind fun _ _ => marking_pure _

theorem traces_addReturn (func : Nat) : Traces g (addReturn func site) d := by
  refine (traces_addOperation_self hopen hg hsite fun hhas => ?_).bind_marking fun _ d₁ => ?_
  · cases hhas
  · exact (marking_markOpcodes site _).bind fun _ _ => marking_onFunction func _

end Sites

/-- The call of an imported function takes the place of the number of arguments, if that is pushed. -/
theorem traces_addIntrinsicCall (hd : d.graph.Ordered) (hlt : call < d.graph.size)
    (hopen : (d.graph.item call).processed = false) (hopcode : (d.graph.item call).opcode? = some .calli) :
    Traces d.graph (addIntrinsicCall call stop) d := by
  refine traces_get_bind ((marking_importedName _ _).bind_traces fun name d₁ _ h₁ => ?_)
  dsimp only
  refine (marking_markProcessed call).bind_traces fun _ d₂ hmark _ => ?_
  have hcall : (d₂.graph.item call).processed = true := by
    cases hmark
    exact congrArg Item.processed (Graph.item_modify_self (h₁.size ▸ hlt) _)
  refine marking_consumeCleanup.bind_traces fun cleanup d₃ _ h₃ => ?_
  refine Traces.bind_pure ?_ _
  cases hcount : (d.graph.prev? call).filter fun prev => (d.graph.item prev).isOpenOpcode .pushi with
  | none =>
    exact traces_addOperation hopen hd hlt fun _ => ⟨call, .self, hopcode, Or.inl rfl⟩
  | some count =>
    obtain ⟨hprev, hpush⟩ := Option.filter_eq_some_iff.1 hcount
    rw [Item.isOpenOpcode, Bool.and_eq_true, Bool.not_eq_true'] at hpush
    have hcountlt := Graph.lt_size_of_isOpcodeItem (Item.isOpcodeItem_of_isOpcode hpush.2)
    exact traces_addOperation hpush.1 hd hcountlt fun _ => ⟨call,
      .count (decide_eq_true hopcode) hpush.2 (hd.adjoins_prev? hlt hprev), hopcode,
      Or.inr (h₃.processed call hcall)⟩

/-! ## The analysis of a function -/

theorem traces_analyzeOpcode (func : Nat) (hd : d.graph.Ordered) (hlt : site < d.graph.size)
    (hopen : (d.graph.item site).processed = false) {opcode : Opcode}
    (hopcode : (d.graph.item site).opcode? = some opcode) :
    Traces d.graph (analyzeOpcode func stop site opcode) d := by
  cases opcode with
  | exitOp => exact (traces_exit hopen hd hlt hopcode).bind_pure none
  | calli => exact (traces_addIntrinsicCall hd hlt hopen hopcode).bind_pure none
  | call => exact traces_addLocalCall hopen hd hlt func stop hopcode
  | sto => exact (traces_addStore hopen hd hlt hopcode).bind_pure none
  | pushiEff => exact (traces_addVariable hopen func).bind_pure none
  | pushi =>
    refine traces_get_bind ?_
    dsimp only
    split
    · exact (traces_addImmediate hopen).bind_pure none
    · exact (marking_pure none).traces
  | _ =>
    first
    | exact (traces_addOperation_self hopen hd hlt fun _ => hopcode).bind_pure none
    | exact (marking_pure none).traces

theorem traces_analyzeItem (func : Nat) (hd : d.graph.Ordered) (hlt : site < d.graph.size) :
    Traces d.graph (analyzeItem func stop site) d := by
  refine traces_get_bind ?_
  dsimp only
  split
  · exact (marking_pure none).traces
  · rename_i opcode hopcode
    split at hopcode
    · cases hopcode
    · rename_i hopen
      rw [Bool.not_eq_true] at hopen
      split
      · exact (traces_addElement hopen func).bind_pure none
      · split
        · exact (traces_addReturn hopen hd hlt func).bind_pure none
        · exact traces_analyzeOpcode func hd hlt hopen hopcode

theorem traced_foldlM (hd : d.graph.Sound) (func : Nat) (stop : ItemId) {ids : List ItemId}
    (hlt : ∀ id ∈ ids, id < d.graph.size) (callees : List Nat) :
    d.graph.Traced (final (ids.foldlM (analyzeNext func stop) callees d)).graph := by
  induction ids generalizing d callees with
  | nil => exact (marking_pure callees).traces (.refl _)
  | cons id rest ih =>
    have hfirst : d.graph.Traced (final (analyzeNext func stop callees id d)).graph :=
      (traces_analyzeItem func hd.ordered (hlt id List.mem_cons_self)).bind_marking
        (fun _ _ => marking_pure _) (.refl _)
    have hanalyzed := analyzed_analyzeNext hd func stop callees id
    rw [List.foldlM_cons]
    cases hresult : analyzeNext func stop callees id d with
    | error fault d₁ =>
      rw [hresult] at hfirst
      rw [bind_of_error hresult]
      exact hfirst
    | ok callees₁ d₁ =>
      rw [hresult] at hfirst hanalyzed
      rw [bind_of_ok hresult]
      cases hanalyzed with
      | done hpasses _ =>
        refine hfirst.trans (ih hpasses.advances.sound (fun other hother => ?_) _)
        exact Nat.lt_of_lt_of_le (hlt other (List.mem_cons_of_mem _ hother)) hfirst.size

/-- The analysis of a function accounts for all effects that it puts into the listing. -/
theorem traced_analyze (hd : d.graph.Sound) (func : Nat) : d.graph.Traced (final (analyze func d)).graph :=
  traced_foldlM hd func _ (fun _ hid => hd.ordered.lt_of_mem ((d.sublist_body func).subset hid)) []

end Pass

end Parley
