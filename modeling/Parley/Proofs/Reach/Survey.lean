import Parley.Proofs.Reach.Label
set_option autoImplicit false

/-!
# Conversations whose functions are known

All functions of a conversation are found before the first of them is decompiled.  By then no line of a block is
written, no call has been replaced, and every call inside of a function has an operand.
-/

namespace Parley

open Fallible

/-! ## Calls -/

/-- The item is a call to a position. -/
def Item.Calls (item : Item) (target : UInt16) : Prop :=
  item.isOpcode .call = true ∧ item.opcodeItem?.bind (·.operand) = some target

theorem Item.Calls.operandOrZero {item : Item} {target : UInt16} (h : item.Calls target) :
    item.operandOrZero = target := by rw [Item.operandOrZero, h.2, Option.getD_some]

namespace Item

variable {old new : Item}

theorem isOpcode_of_code (h : new.code = old.code) (opcode : Opcode) :
    new.isOpcode opcode = old.isOpcode opcode := by
  rw [isOpcode, opcode?_of_code h, isOpcode]

theorem Calls.of_code {target : UInt16} (h : old.Calls target) (hcode : new.code = old.code) :
    new.Calls target :=
  ⟨(isOpcode_of_code hcode .call).trans h.1, (operand_of_code hcode).trans h.2⟩

end Item

namespace Graph

/-- An instruction of a code segment that takes an operand has one, unless it is its last word. -/
theorem operand_itemAt {code : CodeWords} {start behind : Nat} (hstart : start ∈ starts code)
    (hlt : start < behind) (hbehind : behind ∈ starts code) {opcode : Opcode}
    (hopcode : (itemAt code start).opcode? = some opcode) (htakes : opcode.takesOperand = true) :
    ∃ operand, (itemAt code start).opcodeItem?.bind (·.operand) = some operand := by
  have hsize := (lt_of_mem_starts hbehind).1
  have hword : ∃ word, code[start]? = some word :=
    Option.isSome_iff_exists.1 (by rw [Array.getElem?_eq_getElem (by omega)]; rfl)
  have hnext : ∃ operand, code[start + 1]? = some operand :=
    Option.isSome_iff_exists.1 (by rw [Array.getElem?_eq_getElem (by omega)]; rfl)
  obtain ⟨word, hword⟩ := hword
  obtain ⟨operand, hnext⟩ := hnext
  refine ⟨operand, ?_⟩
  change (decodeItem code (UInt16.ofNat start)).1 = some opcode at hopcode
  change (decodeItem code (UInt16.ofNat start)).2 = some operand
  unfold decodeItem Instruction.decode at *
  rw [toNat_start hstart, hword, hnext] at *
  dsimp only at *
  cases hknown : Opcode.ofWord? word with
  | none => simp [hknown] at hopcode
  | some found =>
    rw [hknown] at hopcode
    dsimp only at *
    cases hfound : found.takesOperand with
    | true => rfl
    | false =>
      simp only [hfound, Bool.false_eq_true, if_false, Option.some.injEq] at hopcode
      rw [hopcode, htakes] at hfound
      cases hfound

theorem operand_ofCode {code : CodeWords} {a b : ItemId} (h : Precedes (ofCode code).order a b) {opcode : Opcode}
    (hopcode : ((ofCode code).item a).opcode? = some opcode) (htakes : opcode.takesOperand = true) :
    ∃ operand, ((ofCode code).item a).opcodeItem?.bind (·.operand) = some operand := by
  have hpairs : (starts code).Pairwise fun start behind => (itemAt code start).opcode? = some opcode →
      ∃ operand, (itemAt code start).opcodeItem?.bind (·.operand) = some operand :=
    (pairwise_startsFrom code _ 0).imp_of_mem fun hstart hbehind hlt hopcode =>
      operand_itemAt hstart hlt hbehind hopcode htakes
  rw [← List.pairwise_map (f := itemAt code) (R := fun item _ => item.opcode? = some opcode →
    ∃ operand, item.opcodeItem?.bind (·.operand) = some operand), ← codeItems_eq_map] at hpairs
  exact List.pairwise_iff_forall_sublist.1 (pairwise_order_ofItems hpairs) h hopcode

end Graph

namespace Decompilation

variable {d d' : Decompilation}

/-- A decompilation whose functions are known and in which nothing has been written or replaced. -/
structure Surveyed (d : Decompilation) : Prop where
  sound : d.graph.Sound
  placed : d.Placed
  entries : d.graph.entries = []
  fresh : ∀ id, (d.graph.item id).isOpcode .call = true → (d.graph.item id).processed = false
  operands : ∀ a b, Precedes d.graph.order a b → (d.graph.item a).isOpcode .call = true →
    (d.graph.item b).isOpcodeItem = true → ∃ target, (d.graph.item a).Calls target

namespace Surveyed

/-- Decompilations that differ in cross references only. -/
theorem congr (hd : d.Surveyed) (h : d'.bareView = d.bareView) : d'.Surveyed := by
  have hwell : d.Well := ⟨hd.sound, hd.placed.framed.fits⟩
  have honward := hwell.congr h
  have hcode := item_of_bareView Item.code_bare h
  have hfront := item_of_bareView (f := fun item => item.kind = .functionStart) Item.front_bare h
  have hview := h
  simp only [bareView, Prod.mk.injEq] at hview
  obtain ⟨hframes, horder, hsize, -, -⟩ := hview
  refine ⟨honward.well.sound, ⟨⟨honward.well.fits, hframes ▸ hd.placed.framed.apart⟩, fun id hid => ?_⟩, ?_,
    fun id hcall => ?_, fun a b hab hcall hitem => ?_⟩
  · rw [hframes]
    exact hd.placed.fronts id ((hfront id).mp hid)
  · rw [Graph.entries_congr hsize fun id _ => item_of_bareView Item.blockLine?_bare h id]
    exact hd.entries
  · rw [item_of_bareView Item.processed_bare h id]
    exact hd.fresh id ((Item.isOpcode_of_code (hcode id) .call).symm.trans hcall)
  · rw [horder] at hab
    rw [Item.isOpcode_of_code (hcode a)] at hcall
    rw [item_of_bareView Item.isOpcodeItem_bare h b] at hitem
    obtain ⟨target, htarget⟩ := hd.operands a b hab hcall hitem
    exact ⟨target, htarget.of_code (hcode a)⟩

theorem discoverFunctions (hd : d.Surveyed) (hframes : d.frames = []) : d.discoverFunctions.Surveyed := by
  obtain ⟨hwidens, hplaced⟩ := placed_discoverFunctions hd.sound hd.placed hframes
  have hextends := hwidens.extends
  have hold {id : ItemId} (hid : (d.discoverFunctions.graph.item id).isOpcodeItem = true) :
      id < d.graph.size := by
    by_contra hge
    rw [hextends.fresh id (Nat.le_of_not_lt hge)] at hid
    cases hid
  have hkept {id : ItemId} (hid : (d.discoverFunctions.graph.item id).isOpcodeItem = true) :=
    hwidens.kept id (hold hid)
  have hcallItem {id : ItemId} (hcall : (d.discoverFunctions.graph.item id).isOpcode .call = true) :
      (d.discoverFunctions.graph.item id).isOpcodeItem = true :=
    Item.isOpcodeItem_of_isOpcode hcall
  refine ⟨hwidens.sound, hplaced, ?_, fun id hcall => ?_, fun a b hab hcall hitem => ?_⟩
  · rw [hwidens.entries, hd.entries, List.append_nil]
  · have hkept := hkept (hcallItem hcall)
    have hcall' := (hkept.isOpcode .call).symm.trans hcall
    exact (hkept.call hcall').trans (hd.fresh id hcall')
  · have hkept := hkept (hcallItem hcall)
    have ha := (hd.sound.ordered.mem_order a).2 (hold (hcallItem hcall))
    have hb := (hd.sound.ordered.mem_order b).2 (hold hitem)
    obtain ⟨target, htarget⟩ := hd.operands a b
      (hab.of_sublist hwidens.sound.ordered.nodup hwidens.order ha hb)
      ((hkept.isOpcode .call).symm.trans hcall) ((hwidens.kept b (hold hitem)).isOpcodeItem.symm.trans hitem)
    exact ⟨target, htarget.of_code hkept.code⟩

end Surveyed

theorem surveyed_ofImage (image : Image) (strings : List String) (options : NamingOptions) :
    (ofImage image strings options).Surveyed := by
  refine ⟨(well_ofImage image strings options).sound, ⟨.nil, fun id hid => ?_⟩, ?_, fun id _ => ?_,
    fun a b hab hcall _ => ?_⟩
  · have hkind : ((Graph.ofCode image.code).item id).kind ≠ .functionStart :=
      Graph.forall_item_ofCode (p := fun item => item.kind ≠ .functionStart) (fun h => nomatch h)
        (fun _ _ h => nomatch h) id
    exact absurd hid hkind
  · refine List.filterMap_eq_nil_iff.2 fun id _ => ?_
    exact congrArg (Option.map _) (Graph.blockLine?_ofCode image.code id)
  · exact Graph.forall_item_ofCode (p := fun item => item.processed = false) rfl (fun _ _ => rfl) id
  · obtain ⟨target, htarget⟩ := Graph.operand_ofCode hab (of_decide_eq_true hcall) rfl
    exact ⟨target, hcall, htarget⟩

/-! ## The functions of a conversation -/

/-- The decompilation of an image when its functions are known and its calls are labelled, and no function has
been decompiled.  If the cross references end with a fault the functions are those found with what there was by
then. -/
def survey (image : Image) (strings : List String) (options : NamingOptions) : Decompilation :=
  (final (Pass.collectReferences (.ofImage image strings options))).discoverFunctions.relabelCalls

theorem surveyed_survey (image : Image) (strings : List String) (options : NamingOptions) :
    (survey image strings options).Surveyed := by
  have href := blind_bareView.collectReferences (ofImage image strings options)
  have hframes : (final (Pass.collectReferences (ofImage image strings options))).frames =
      (ofImage image strings options).frames := congrArg (·.1) href
  exact (((surveyed_ofImage image strings options).congr href).discoverFunctions hframes).congr
    (bareView_relabelCalls _)

/-- The cross references replace nothing. -/
theorem processed_collectReferences (image : Image) (strings : List String) (options : NamingOptions)
    (id : ItemId) :
    ((final (Pass.collectReferences (ofImage image strings options))).graph.item id).processed = false := by
  rw [item_of_bareView Item.processed_bare (blind_bareView.collectReferences _) id]
  exact Graph.forall_item_ofCode (p := fun item => item.processed = false) rfl (fun _ _ => rfl) id

/-- If no name was given that begins like the label of a call that leads nowhere, calls that lead somewhere are
not labelled so. -/
theorem shown_survey {image : Image} {strings : List String} {options : NamingOptions}
    (hnames : ∀ pos name, options.functionNames.get? pos = some name → Leading name) (id : ItemId) :
    (survey image strings options).Shown id := by
  have hnamed : (ofImage image strings options).Named :=
    ⟨Graph.labelled_ofCode image.code, fun _ hf => absurd hf List.not_mem_nil, leading_functionName hnames⟩
  have hfound := (Pass.named_collectReferences hnamed).discoverFrom
    (final (Pass.collectReferences (ofImage image strings options))).graph.size
    (final (Pass.collectReferences (ofImage image strings options))).graph.first?
  intro hcall
  have hitem := Item.isOpcodeItem_of_isOpcode hcall
  have hmem := ((surveyed_survey image strings options).sound.ordered.mem_order id).2
    (Graph.lt_size_of_isOpcodeItem hitem)
  have horder : (survey image strings options).graph.order =
      (final (Pass.collectReferences (ofImage image strings options))).discoverFunctions.graph.order :=
    congrArg (·.2.1) (bareView_relabelCalls _)
  exact (named_relabelCalls hfound).2 id (horder ▸ hmem) hcall

end Decompilation

end Parley
