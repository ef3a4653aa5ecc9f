import Parley.Proofs.Control.Overlay
import Parley.Proofs.Decompile.Partition
import Parley.Proofs.Reach.Survey
set_option autoImplicit false

/-!
# Where jumps lead

When the functions of a conversation are known, so is where all jumps in them lead, and every jump has the label of
the place.  No jump has been replaced by then, and there are neither expressions nor statements.
-/

namespace Parley

open Fallible

/-- What a place is called that something leads to. -/
def placeLabel (pos : UInt16) : String := if pos = 0 then startFunction else labelName pos

namespace Opcode

/-- No jump is among the instructions at the beginning of a function. -/
theorem isJump_of_mem_prologue : ∀ opcode ∈ prologue, opcode.isJump = false := by decide

/-- No jump is among the instructions at the end of a function. -/
theorem isJump_of_mem_epilogue : ∀ opcode ∈ epilogue, opcode.isJump = false := by decide

theorem takesOperand_of_isJump {opcode : Opcode} (h : opcode.isJump = true) : opcode.takesOperand = true := by
  unfold isJump at h
  split at h
  all_goals first | rfl | cases h

end Opcode

namespace Item

variable {item : Item}

/-- A jump with an operand leads somewhere. -/
theorem isSome_leadsTo?_of_isJump (h : item.isJump = true) {operand : UInt16}
    (hoperand : item.opcodeItem?.bind (·.operand) = some operand) : item.leadsTo?.isSome = true := by
  obtain ⟨opcode, hopcode, hjump⟩ := exists_opcode_of_isJump h
  obtain ⟨op, hop, hopcode⟩ := Option.bind_eq_some_iff.1 hopcode
  rw [hop, Option.bind_some] at hoperand
  rw [leadsTo?, hop, Option.bind_some, hopcode, Option.bind_some, hoperand]
  unfold Opcode.isJump at hjump
  split at hjump
  all_goals first | rfl | cases hjump

theorem isJump_of_isOpcode_call (h : item.isOpcode .call = true) : item.isJump = false := by
  rw [isJump, of_decide_eq_true h]
  rfl

theorem expression?_bare (item : Item) : item.bare.expression? = item.expression? := by
  obtain ⟨_, _, _, _, kind⟩ := item
  cases kind <;> rfl

theorem targetPos?_withTargetLabel (item : Item) (label : Option String) :
    (item.withTargetLabel label).targetPos? = item.targetPos? := by
  unfold withTargetLabel targetPos?
  rw [opcodeItem?_withTarget]
  cases item.opcodeItem? <;> rfl

theorem isJump_withTargetLabel (item : Item) (label : Option String) :
    (item.withTargetLabel label).isJump = item.isJump := by
  rw [isJump, withTargetLabel, opcode?_of_code (code_withTarget item label _), isJump]

end Item

/-! ## Targets -/

/-- Nothing has a target but what leads there. -/
def Graph.Aligned (g : Graph) : Prop :=
  ∀ id target, (g.item id).targetPos? = some target → (g.item id).leadsTo? = some target

namespace Pass

variable {d d' : Decompilation} {id : ItemId}

theorem aligned_resolveTarget (hd : d.graph.Aligned) (h : resolveTarget id d = .ok () d') : d'.graph.Aligned := by
  intro other target htarget
  have hcode := Graph.code_of_codeView_eq (graph_of_codeView_eq ((keeps_resolveTarget id).of_ok h)) other
  rw [Item.leadsTo?_congr hcode]
  by_cases hsame : other = id
  · subst hsame
    cases hleads : (d.graph.item other).leadsTo? with
    | some found =>
      have hlt := Graph.lt_size_of_isOpcodeItem (Item.isOpcodeItem_of_leadsTo? hleads)
      obtain ⟨hknown, -⟩ := targetKnown_resolveTarget hlt h found ((Item.leadsTo?_congr hcode).trans hleads)
      exact hknown.symm.trans htarget
    | none =>
      rw [resolveTarget_apply, hleads] at h
      split at h
      · split at h
        · rename_i hcalli _ _ _ hname
          cases importedName_eq_ok hname
          cases h
          have hitem := Item.isOpcodeItem_of_opcode? hcalli
          rw [show (d.onGraph (·.modify other _)).graph.item other = _ from
            Graph.item_modify_self (Graph.lt_size_of_isOpcodeItem hitem) _, Item.targetPos?_withTarget hitem] at htarget
          cases htarget
        · cases h
      · cases h
        rw [hd other target htarget] at hleads
        cases hleads
  · rw [targetPos?_resolveTarget hsame h] at htarget
    exact hd other target htarget

theorem aligned_forM_resolveTarget {ids : List ItemId} (hd : d.graph.Aligned)
    (h : ids.forM resolveTarget d = .ok () d') : d'.graph.Aligned := by
  induction ids generalizing d with
  | nil =>
    cases h
    exact hd
  | cons id rest ih =>
    have hbind : (resolveTarget id >>= fun _ => rest.forM resolveTarget) d = .ok () d' := h
    obtain ⟨_, d₁, hfirst, hrest⟩ := bind_eq_ok.1 hbind
    exact ih (aligned_resolveTarget hd hfirst) hrest

theorem aligned_collectReferences {image : Image} {strings : List String} {options : NamingOptions}
    (h : collectReferences (.ofImage image strings options) = .ok () d) : d.graph.Aligned := by
  rw [collectReferences_apply] at h
  split at h
  · cases h
  · rename_i first _
    refine aligned_forM_resolveTarget (fun id target htarget => ?_) h
    have hkept := Graph.modify_keeps (p := Item.targetPos?)
      (f := fun item => { item with label := some startFunction, xrefCount := 1 }) (fun _ => rfl)
      (Graph.ofCode image.code) first id
    have hnone : ((Graph.ofCode image.code).item id).targetPos? = none :=
      Graph.forall_item_ofCode (p := fun item => item.targetPos? = none) rfl (fun _ _ => rfl) id
    cases (hkept.trans hnone).symm.trans htarget

end Pass

/-! ## Listings in which nothing has been decompiled -/

/-- There are neither expressions nor statements in the listing. -/
def Graph.Unreduced (g : Graph) : Prop := ∀ id, (g.item id).expression? = none ∧ (g.item id).statement? = none

/-- A jump that leads to a place is labelled as the place is called. -/
def Graph.NamesJumps (g : Graph) : Prop :=
  ∀ id target, (g.item id).isJump = true → (g.item id).targetPos? = some target →
    (g.item id).targetLabel? = some (placeLabel target)

/-- It is known where all jumps lead that stand before another instruction, none of them has been replaced, and there
are neither expressions nor statements. -/
structure Graph.Charted (g : Graph) : Prop where
  found : ∀ id target, (g.item id).targetPos? = some target → (g.findPos? target).isSome = true
  named : g.NamesJumps
  leads : ∀ a b, Precedes g.order a b → (g.item a).isJump = true → (g.item b).isOpcodeItem = true →
    (g.item a).targetPos?.isSome = true
  opened : ∀ id, (g.item id).isJump = true → (g.item id).processed = false
  unreduced : g.Unreduced

namespace Decompilation

section Collected

variable {image : Image} {strings : List String} {options : NamingOptions} {d : Decompilation}
  (h : Pass.collectReferences (.ofImage image strings options) = .ok () d)

include h

theorem single_collected : d.graph.Single := by
  have hview := codeView_collected h
  intro a ha b hb hpos
  have hsame (id : ItemId) := congrArg Prod.fst (Graph.code_of_codeView_eq hview id)
  rw [Graph.size_of_codeView_eq hview] at ha hb
  exact Graph.single_ofCode image.code a ha b hb ((hsame a).symm.trans (hpos.trans (hsame b)))

theorem charted_collected : d.graph.Charted := by
  have hview := codeView_collected h
  have hbare := bareView_collected h
  have hordered := ((well_ofImage image strings options).congr hbare).well.sound.ordered
  have hcensus := census_collected h
  have haligned := Pass.aligned_collectReferences h
  have hcode (id : ItemId) := Graph.code_of_codeView_eq hview id
  have hmem {id : ItemId} {target : UInt16} (hleads : (d.graph.item id).leadsTo? = some target) : id ∈ d.graph.order :=
    (hordered.mem_order id).2 (Graph.lt_size_of_isOpcodeItem (Item.isOpcodeItem_of_leadsTo? hleads))
  -- A target that an item has is one where it leads, and of those the census knows item and label.
  refine ⟨fun id target htarget => ?_, fun id target _ htarget => ?_, fun a b hab hjump hitem => ?_, fun id _ => ?_,
    fun id => ⟨?_, ?_⟩⟩
  · have hleads := haligned id target htarget
    obtain ⟨-, site, hsite, hpos, -⟩ := hcensus.targets id (hmem hleads) target hleads
    exact hordered.isSome_findPos? (hordered.lt_of_mem hsite) hpos
  · have hleads := haligned id target htarget
    obtain ⟨-, site, hsite, hpos, hlabel, hsome⟩ := hcensus.targets id (hmem hleads) target hleads
    obtain ⟨first, hfirst, hzero, hstart⟩ := hcensus.start
    obtain ⟨name, hname⟩ := Option.isSome_iff_exists.1 hsome
    rw [hlabel, hname]
    by_cases hsame : d.graph.first? = some site
    · obtain rfl : first = site := Option.some.inj (hfirst.symm.trans hsame)
      rw [hstart] at hname
      rw [← hname, placeLabel, if_pos (hpos.symm.trans hzero)]
    · rw [hcensus.label site hsite name hname hsame, hpos, placeLabel, if_neg]
      rintro rfl
      rw [← hzero] at hpos
      exact hsame (single_collected h site (hordered.lt_of_mem hsite) first
        (hordered.lt_of_mem (List.mem_of_mem_head? hfirst)) hpos ▸ hfirst)
  · obtain ⟨opcode, hopcode, htakes⟩ := Item.exists_opcode_of_isJump hjump
    have hopcode' := (Item.opcode?_of_code (hcode a)).symm.trans hopcode
    obtain ⟨operand, hoperand⟩ := Graph.operand_ofCode (Graph.order_of_codeView_eq hview ▸ hab) hopcode'
      (Opcode.takesOperand_of_isJump htakes)
    obtain ⟨target, hleads⟩ := Option.isSome_iff_exists.1
      (Item.isSome_leadsTo?_of_isJump hjump ((Item.operand_of_code (hcode a)).trans hoperand))
    rw [(hcensus.targets a (hmem hleads) target hleads).1]
    rfl
  · rw [item_of_bareView Item.processed_bare hbare id]
    exact Graph.forall_item_ofCode (p := fun item => item.processed = false) rfl (fun _ _ => rfl) id
  · rw [item_of_bareView Item.expression?_bare hbare id]
    exact Graph.forall_item_ofCode (p := fun item => item.expression? = none) rfl (fun _ _ => rfl) id
  · rw [item_of_bareView Item.statement?_bare hbare id]
    exact Graph.forall_item_ofCode (p := fun item => item.statement? = none) rfl (fun _ _ => rfl) id

end Collected

end Decompilation

/-! ## Functions -/

namespace Graph

variable {g : Graph}

theorem Unreduced.modify (hg : g.Unreduced) {f : Item → Item} (hf : ∀ item, (f item).kind = item.kind) (id : ItemId) :
    (g.modify id f).Unreduced := by
  intro other
  have hkind : ((g.modify id f).item other).kind = (g.item other).kind := modify_keeps hf g id other
  rw [Item.expression?, Item.statement?, hkind]
  exact hg other

theorem Unreduced.addBoundary (hg : g.Unreduced) (site : ItemId) (count : Nat) {boundary : Item}
    (hboundary : boundary.kind = .functionStart ∨ boundary.kind = .functionEnd) :
    (Decompilation.addBoundary g site count boundary).Unreduced := by
  intro id
  have hkind : ((Decompilation.addBoundary g site count boundary).item id).kind =
      ((g.insertBefore site boundary).item id).kind :=
    markAll_keeps (p := Item.kind) (fun _ => rfl) _ _ id
  rw [Item.expression?, Item.statement?, hkind]
  by_cases hid : id = g.size
  · rw [hid, item_insertBefore_new]
    rcases hboundary with hboundary | hboundary <;> rw [hboundary] <;> exact ⟨rfl, rfl⟩
  · rw [item_insertBefore_of_ne hid]
    exact hg id

end Graph

namespace Decompilation

variable {d : Decompilation}

theorem unreduced_addFunction (hd : d.graph.Unreduced) (entry exit : ItemId) :
    (d.addFunction entry exit).graph.Unreduced := by
  obtain ⟨info, hadded, -⟩ := addFunction_eq d entry exit
  have hwithout {g : Graph} (hg : g.Unreduced) (id : ItemId) := hg.modify (f := Item.withoutLabel) (fun _ => rfl) id
  rw [hadded]
  exact (hwithout ((hwithout (hwithout hd _) _).addBoundary _ _ (Or.inl rfl)) exit).addBoundary _ _ (Or.inr rfl)

theorem unreduced_discoverFrom (hd : d.graph.Unreduced) (fuel : Nat) (cursor : Option ItemId) :
    (discoverFrom fuel cursor d).graph.Unreduced :=
  discoverFrom_of_addFunction (P := fun d => d.graph.Unreduced) (fun _ entry exit h => unreduced_addFunction h entry exit)
    fuel cursor hd

/-- What is replaced by the boundaries of a function is no jump. -/
theorem isJump_of_mem_replaced {e : Extent} {g : Graph} (h : e.Stands g) {id : ItemId} (hid : id ∈ e.replaced g) :
    (g.item id).isJump = false := by
  have hpattern {site : ItemId} {pattern : List Opcode} (hbegins : g.Begins site pattern)
      (hjump : ∀ opcode ∈ pattern, opcode.isJump = false)
      (hid : id ∈ (g.instructionsFrom site).take pattern.length) : (g.item id).isJump = false := by
    obtain ⟨opcode, hmem, hopcode⟩ := hbegins.exists_opcode hid
    rw [Item.isJump, hopcode, Option.any_some, hjump opcode hmem]
  simp only [Extent.replaced, List.mem_append] at hid
  rcases hid with (hfirst | hentry) | hexit
  · split at hfirst
    · cases hfirst
    · rename_i hne
      obtain ⟨-, hopcode⟩ := h.opens.resolve_left hne
      rw [List.mem_singleton.1 hfirst, Item.isJump, hopcode]
      rfl
  · exact hpattern h.begins Opcode.isJump_of_mem_prologue hentry
  · exact hpattern h.ends Opcode.isJump_of_mem_epilogue hexit

theorem charted_discoverFunctions {image : Image} {strings : List String} {options : NamingOptions}
    (h : Pass.collectReferences (.ofImage image strings options) = .ok () d) : d.discoverFunctions.graph.Charted := by
  have hd := charted_collected h
  have hbare := bareView_collected h
  have hsurveyed := (surveyed_ofImage image strings options).congr hbare
  obtain ⟨extents, hpartitioned⟩ := partitioned_discoverFunctions h
  obtain ⟨hwidens, -⟩ := placed_discoverFunctions hsurveyed.sound hsurveyed.placed (congrArg (·.1) hbare)
  have hextends := hwidens.extends
  -- All instructions were there before.
  have hold {id : ItemId} (hid : (d.discoverFunctions.graph.item id).isOpcodeItem = true) : id < d.graph.size :=
    hextends.lt_of_isOpcodeItem hid
  have hop {id : ItemId} (hid : (d.discoverFunctions.graph.item id).isOpcodeItem = true) :
      (d.discoverFunctions.graph.item id).opcodeItem? = (d.graph.item id).opcodeItem? :=
    (hwidens.kept id (hold hid)).op
  refine ⟨fun id target htarget => ?_, fun id target hjump htarget => ?_, fun a b hab hjump hitem => ?_,
    fun id hjump => ?_, unreduced_discoverFrom hd.unreduced _ _⟩
  · rw [Item.targetPos?_of_opcodeItem? (hop (Item.isOpcodeItem_of_targetPos? htarget))] at htarget
    exact hextends.isSome_findPos? hsurveyed.sound.ordered hwidens.sound.ordered (hd.found id target htarget)
  · have hop := hop (Item.isOpcodeItem_of_isJump hjump)
    rw [Item.targetLabel?, hop, ← Item.targetLabel?]
    exact hd.named id target ((Item.isJump_of_opcodeItem? hop).symm.trans hjump)
      ((Item.targetPos?_of_opcodeItem? hop).symm.trans htarget)
  · have hitemA := Item.isOpcodeItem_of_isJump hjump
    have hmem {id : ItemId} (hid : (d.discoverFunctions.graph.item id).isOpcodeItem = true) :=
      (hsurveyed.sound.ordered.mem_order id).2 (hold hid)
    rw [Item.targetPos?_of_opcodeItem? (hop hitemA)]
    refine hd.leads a b (hab.of_sublist hwidens.sound.ordered.nodup hwidens.order (hmem hitemA) (hmem hitem))
      ((Item.isJump_of_opcodeItem? (hop hitemA)).symm.trans hjump) ?_
    rwa [Item.isOpcodeItem, hop hitem] at hitem
  · have hjump' := (Item.isJump_of_opcodeItem? (hop (Item.isOpcodeItem_of_isJump hjump))).symm.trans hjump
    refine Bool.eq_false_iff.2 fun hprocessed => ?_
    obtain ⟨e, he, hid⟩ := (hpartitioned.processed id).1 hprocessed
    rw [isJump_of_mem_replaced (hpartitioned.stands e he) hid] at hjump'
    cases hjump'

end Decompilation

/-! ## Labels of calls -/

/-- A call may be labelled otherwise. -/
theorem Graph.Charted.withTargetLabel {g : Graph} (hg : g.Charted) {id : ItemId}
    (hcall : (g.item id).isOpcode .call = true) (label : Option String) :
    (g.modify id (·.withTargetLabel label)).Charted := by
  have htarget (other : ItemId) : ((g.modify id (·.withTargetLabel label)).item other).targetPos? =
      (g.item other).targetPos? :=
    modify_keeps (fun item => Item.targetPos?_withTargetLabel item label) g id other
  have hjump (other : ItemId) : ((g.modify id (·.withTargetLabel label)).item other).isJump = (g.item other).isJump :=
    modify_keeps (fun item => Item.isJump_withTargetLabel item label) g id other
  have hbare {α : Type} {p : Item → α} (hp : ∀ item : Item, p item.bare = p item) (other : ItemId) :
      p ((g.modify id (·.withTargetLabel label)).item other) = p (g.item other) :=
    modify_keeps (fun item => by rw [← hp, Item.withTargetLabel, Item.bare_withTarget, hp]) g id other
  refine ⟨fun other target h => ?_, fun other target h h' => ?_, fun a b hab h h' => ?_, fun other h => ?_,
    fun other => ?_⟩
  · exact hg.found other target ((htarget other).symm.trans h)
  · have hne : other ≠ id := by
      rintro rfl
      rw [hjump, Item.isJump_of_isOpcode_call hcall] at h
      cases h
    rw [item_modify_of_ne hne] at h h' ⊢
    exact hg.named other target h h'
  · rw [htarget]
    exact hg.leads a b hab ((hjump a).symm.trans h) ((hbare Item.isOpcodeItem_bare b).symm.trans h')
  · rw [hbare Item.processed_bare]
    exact hg.opened other ((hjump other).symm.trans h)
  · rw [hbare Item.expression?_bare, hbare Item.statement?_bare]
    exact hg.unreduced other

namespace Decompilation

variable {d : Decompilation}

theorem charted_relabelCalls (hd : d.graph.Charted) : d.relabelCalls.graph.Charted := by
  unfold relabelCalls
  induction d.graph.order generalizing d with
  | nil => exact hd
  | cons id rest ih =>
    refine ih ?_
    unfold relabelCall
    dsimp only
    split
    · split
      · rename_i hcall
        exact hd.withTargetLabel hcall _
      · exact hd
    · exact hd

/-- When the functions of a conversation are known it is known where all jumps lead. -/
theorem charted_survey {image : Image} {strings : List String} {options : NamingOptions}
    (h : Pass.collectReferences (.ofImage image strings options) = .ok () d) :
    (survey image strings options).graph.Charted := by
  rw [survey, h, final_ok]
  exact charted_relabelCalls (charted_discoverFunctions h)

/-! ## Jumps that stay inside of their functions -/

/-- All jumps and branches in functions lead behind the prologue of their function and not behind its end. -/
def JumpsInside (d : Decompilation) : Prop :=
  ∀ func f, d.frames[func]? = some f → ∀ id ∈ d.body func, (d.graph.item id).isJump = true →
    ∀ target, (d.graph.item id).targetPos? = some target → f.entry.toNat + 4 < target.toNat ∧ target ≤ f.stop

/-- Whether all jumps stay inside of their functions can be looked up. -/
instance (d : Decompilation) : Decidable d.JumpsInside :=
  decidable_of_iff (∀ p ∈ d.frames.zipIdx, ∀ id ∈ d.body p.2, (d.graph.item id).isJump = true →
      ((d.graph.item id).targetPos?.all fun target =>
        p.1.entry.toNat + 4 < target.toNat ∧ target ≤ p.1.stop) = true) <| by
    simp only [Option.all_eq_true, decide_eq_true_eq]
    exact ⟨fun h func f hf => h (f, func) (List.mem_zipIdx_iff_getElem?.2 hf),
      fun h p hp => h p.2 p.1 (List.mem_zipIdx_iff_getElem?.1 hp)⟩

end Decompilation

end Parley
