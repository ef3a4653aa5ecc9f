import Parley.Proofs.Render.Line
set_option autoImplicit false

/-!
# A disassembly tells the code

Disassembly gives every instruction the name of what it calls or the label of where it leads.  The listing then has
one line for every instruction, in their order, and these lines can be told from the lines with labels between them.
So the listings of conversations that import the same functions are the same only if the code is the same.
-/

namespace Parley

namespace Item

theorem Tells.congr {imports : ImportTable} {old new : Item} (h : old.Tells imports)
    (hop : new.opcodeItem? = old.opcodeItem?) (hpos : new.pos = old.pos) : new.Tells imports := by
  have hleads : new.leadsTo? = old.leadsTo? := leadsTo?_congr (by rw [code, code, hop, hpos])
  refine ⟨?_, ?_⟩
  · rw [opcode?, operandOrZero, targetLabel?, hop]
    exact h.calls
  · rw [opcode?, targetLabel?, hop, hleads]
    exact h.rests

/-- Whether an instruction can be read is a matter of its code. -/
theorem Readable.of_code {old new : Item} (h : old.Readable) (hcode : new.code = old.code) : new.Readable := by
  have hold (op : OpcodeItem) (hop : new.opcodeItem? = some op) : ∃ old', old.opcodeItem? = some old' ∧
      op.word = old'.word ∧ op.opcode = old'.opcode ∧ op.operand = old'.operand := by
    have hinstruction := congrArg Prod.snd hcode
    rw [code, code, hop] at hinstruction
    obtain ⟨old', hop', heq⟩ := Option.map_eq_some_iff.1 hinstruction.symm
    simp only [Prod.mk.injEq] at heq
    exact ⟨old', hop', heq.1.symm, heq.2.1.symm, heq.2.2.symm⟩
  refine ⟨fun op hop => ?_, fun op hop hnone => ?_, fun op hop hcalli => ?_⟩
  · obtain ⟨old', hop', hword, hopcode, -⟩ := hold op hop
    rw [hopcode, hword]
    exact h.opcode old' hop'
  · obtain ⟨old', hop', -, hopcode, hoperand⟩ := hold op hop
    rw [hoperand]
    exact h.operand old' hop' (hopcode ▸ hnone)
  · obtain ⟨old', hop', -, hopcode, hoperand⟩ := hold op hop
    rw [hoperand]
    exact h.whole old' hop' (hopcode ▸ hcalli)

/-- The words of an item are a matter of its code. -/
theorem words_eq (item : Item) : item.words = item.code.2.elim [] fun op => op.1 :: op.2.2.toList := by
  rw [words, code]
  cases item.opcodeItem? <;> rfl

end Item

/-! ## What disassembly says of each instruction -/

namespace Pass

open Fallible

variable {d d' : Decompilation} {id other : ItemId} {ids : List ItemId}

theorem opcodeItem?_resolveTarget (hne : other ≠ id) (h : resolveTarget id d = .ok () d') :
    (d'.graph.item other).opcodeItem? = (d.graph.item other).opcodeItem? := by
  rw [resolveTarget_apply] at h
  split at h
  · split at h
    · rename_i hname
      cases importedName_eq_ok hname
      cases h
      exact congrArg Item.opcodeItem? (Graph.item_modify_of_ne hne _)
    · cases h
  · split at h
    · cases h
      rfl
    · split at h
      · rename_i href
        obtain ⟨site, -, rfl⟩ := reference_eq_ok href
        cases h
        refine (congrArg Item.opcodeItem? (Graph.item_modify_of_ne hne _)).trans ?_
        exact Graph.modify_keeps (p := Item.opcodeItem?) (f := (·.referenced _)) (fun _ => rfl) d.graph _ other
      · cases h

theorem opcodeItem?_forM_resolveTarget (hnew : other ∉ ids) (h : ids.forM resolveTarget d = .ok () d') :
    (d'.graph.item other).opcodeItem? = (d.graph.item other).opcodeItem? := by
  induction ids generalizing d with
  | nil =>
    cases h
    rfl
  | cons id rest ih =>
    obtain ⟨_, d₁, hfirst, hrest⟩ := bind_eq_ok (f := fun _ => rest.forM resolveTarget).1 h
    rw [List.mem_cons, not_or] at hnew
    rw [ih hnew.2 hrest, opcodeItem?_resolveTarget hnew.1 hfirst]

/-- An instruction that said nothing is named when it is resolved. -/
theorem tells_resolveTarget (hid : id < d.graph.size) (hbare : (d.graph.item id).targetLabel? = none)
    (h : resolveTarget id d = .ok () d') : (d'.graph.item id).Tells d.importedFunctions := by
  have hcode := Graph.code_of_codeView_eq (graph_of_codeView_eq ((keeps_resolveTarget id).of_ok h)) id
  refine ⟨fun hcalli => ?_, fun hcalli hrests => ?_⟩
  · rw [Item.opcode?_of_code hcode] at hcalli
    rw [Item.operandOrZero_of_code hcode]
    rw [resolveTarget_apply, if_pos hcalli, importedName_apply] at h
    cases himported : d.importedFunctions.get? (d.graph.item id).operandOrZero with
    | none =>
      rw [himported] at h
      cases h
    | some imported =>
      rw [himported] at h
      cases h
      refine ⟨imported, rfl, ?_⟩
      refine (congrArg Item.targetLabel? (Graph.item_modify_self hid _)).trans ?_
      exact Item.targetLabel?_withTarget (Item.isOpcodeItem_of_opcode? hcalli) _ _
  · rw [Item.opcode?_of_code hcode] at hcalli
    rw [Item.leadsTo?_congr hcode] at hrests
    rw [resolveTarget_apply, if_neg hcalli, hrests] at h
    cases h
    exact hbare

/-- Instructions that said nothing are named when all are resolved. -/
theorem tells_forM_resolveTarget (hnodup : ids.Nodup) (hids : ∀ id ∈ ids, id < d.graph.size)
    (hbare : ∀ id ∈ ids, (d.graph.item id).targetLabel? = none) (h : ids.forM resolveTarget d = .ok () d') :
    ∀ id ∈ ids, (d'.graph.item id).Tells d.importedFunctions := by
  induction ids generalizing d with
  | nil => exact fun _ hmem => absurd hmem List.not_mem_nil
  | cons id rest ih =>
    obtain ⟨_, d₁, hfirst, hrest⟩ := bind_eq_ok (f := fun _ => rest.forM resolveTarget).1 h
    obtain ⟨hnew, hnodup⟩ := List.nodup_cons.1 hnodup
    have hview := (keeps_resolveTarget id).of_ok hfirst
    have hview' := (blind_codeView.forM_resolveTarget rest).of_ok hrest
    intro other hother
    rcases List.mem_cons.1 hother with rfl | hother
    · have hcode := Graph.code_of_codeView_eq (graph_of_codeView_eq hview') other
      exact (tells_resolveTarget (hids _ List.mem_cons_self) (hbare _ List.mem_cons_self) hfirst).congr
        (opcodeItem?_forM_resolveTarget hnew hrest) (congrArg Prod.fst hcode)
    · rw [← importedFunctions_of_codeView_eq hview]
      refine ih hnodup (fun id hid => ?_) (fun id' hid' => ?_) hrest other hother
      · rw [Graph.size_of_codeView_eq (graph_of_codeView_eq hview)]
        exact hids id (List.mem_cons_of_mem _ hid)
      · have hne : id' ≠ id := fun h => hnew (h ▸ hid')
        rw [Item.targetLabel?, opcodeItem?_resolveTarget hne hfirst]
        exact hbare id' (List.mem_cons_of_mem _ hid')

end Pass

/-- The labels of places are those of the start and of positions. -/
theorem Graph.Census.label_eq {g : Graph} (hg : g.Census) {site : ItemId} (hsite : site ∈ g.order) {name : String}
    (hname : (g.item site).label = some name) : name = startFunction ∨ ∃ pos, name = labelName pos := by
  by_cases hfirst : g.first? = some site
  · obtain ⟨first, hsome, -, hlabel⟩ := hg.start
    rw [hfirst, Option.some.injEq] at hsome
    rw [hsome, hlabel, Option.some.injEq] at hname
    exact Or.inl hname.symm
  · exact Or.inr ⟨_, hg.label site hsite name hname hfirst⟩

theorem oneLine_labelName (pos : UInt16) : OneLine (labelName pos) := OneLine.append (by decide) (oneLine_hexWord pos)

namespace Pass

open Fallible

variable {image : Image} {strings : List String} {options : NamingOptions} {d : Decompilation}

theorem tells_collectReferences (h : collectReferences (.ofImage image strings options) = .ok () d) :
    ∀ id ∈ d.graph.order, (d.graph.item id).Tells image.functions := by
  have horder := Graph.order_of_codeView_eq (graph_of_codeView_eq (keeps_collectReferences.of_ok h))
  rw [collectReferences_apply] at h
  split at h
  · cases h
  · rename_i first _
    have hg := Graph.ofCode_ordered image.code
    intro id hid
    rw [horder] at hid
    refine tells_forM_resolveTarget hg.nodup (fun id hid => ?_) (fun id _ => ?_) h id hid
    · exact (Graph.size_modify _ _ _).symm ▸ hg.lt_of_mem hid
    · have hkept := Graph.modify_keeps (p := Item.targetLabel?)
        (f := fun item => { item with label := some startFunction, xrefCount := 1 }) (fun _ => rfl)
        (Graph.ofCode image.code) first id
      exact hkept.trans
        (Graph.forall_item_ofCode (p := fun item => item.targetLabel? = none) rfl (fun _ _ => rfl) id)

/-- After disassembly the census is taken, and every instruction says what it calls or where it leads. -/
theorem aimed_disassemble (h : disassemble (.ofImage image strings options) = .ok () d) :
    d.graph.Census ∧ d.slot = image.slot ∧ ∀ id ∈ d.graph.order, (d.graph.item id).Aimed image.functions := by
  rw [disassemble_apply, if_pos (show (Decompilation.ofImage image strings options).stage = .fresh from rfl)] at h
  split at h
  · rename_i d₁ hcollect
    cases h
    have hblind : Blind (fun d : Decompilation => d.slot) := fun _ _ _ _ => rfl
    have hcensus : d₁.graph.Census := by
      have hall := collectReferences_ofImage image strings options
      split at hall
      · obtain ⟨d', hfault⟩ := hall
        rw [hcollect] at hfault
        cases hfault
      · obtain ⟨d', hok, hcensus⟩ := hall
        rw [hcollect] at hok
        cases hok
        exact hcensus
    refine ⟨hcensus, hblind.collectReferences.of_ok hcollect, fun id hid => ?_⟩
    refine ⟨tells_collectReferences hcollect id hid, fun target htarget => ?_⟩
    obtain ⟨hpos, site, hsite, -, hlabel, hsome⟩ := hcensus.targets id hid target htarget
    obtain ⟨label, hname⟩ := Option.isSome_iff_exists.1 hsome
    refine ⟨hpos, label, hlabel.trans hname, ?_⟩
    rcases hcensus.label_eq hsite hname with rfl | ⟨pos, rfl⟩
    · decide
    · exact oneLine_labelName pos
  · cases h

end Pass

/-! ## The lines of a disassembly -/

/-- The position that an instruction line of a disassembly begins with, behind its indentation. -/
def instructionPos? (layout : RenderOptions) (line : String) : Option UInt16 :=
  let pad := (indentation layout.indentWidth 1).toList
  if pad.isPrefixOf line.toList then
    (Text.digits? 16 ((line.toList.drop pad.length).takeWhile (· ≠ ' '))).map UInt16.ofNat
  else none

/-- Whether code ends with a call of an imported function without the id of the function. -/
def endsInCalli (code : CodeWords) : Bool :=
  (Graph.codeItems code).getLast?.any fun item =>
    item.isOpcode .calli && (item.opcodeItem?.bind (·.operand)).isNone

section Lines

variable {layout : RenderOptions}

/-- An instruction line is one, and begins with the position of the instruction. -/
theorem instructionPos?_opcodeLine {item : Item} {line : String} (hline : item.opcodeLine? = some line) :
    instructionPos? layout (indentation layout.indentWidth 1 ++ line) = some item.pos := by
  obtain ⟨op, hop, -⟩ := Option.map_eq_some_iff.1 hline
  rw [Item.opcodeLine?_eq hop, Option.some.injEq] at hline
  have hword : line.toList.takeWhile (· ≠ ' ') = (Text.hexWord item.pos).toList := by
    rw [← hline, String.toList_append, String.toList_append, List.append_assoc, List.takeWhile_append_of_pos]
    · simp
    · intro c hc
      exact decide_eq_true fun hblank => Text.notMem_hexWord (by decide) (hblank ▸ hc)
  unfold instructionPos?
  rw [String.toList_append, if_pos (List.isPrefixOf_iff_prefix.2 (List.prefix_append _ _)), List.drop_left, hword,
    Text.digits?_hexWord, Option.map_some, UInt16.ofNat_toNat]

/-- A line that begins with neither a blank nor a digit is no instruction line. -/
theorem instructionPos?_eq_none {line : String} {c : Char} (hfirst : line.toList.head? = some c) (hblank : c ≠ ' ')
    (hdigit : Text.digit? 16 c = none) : instructionPos? layout line = none := by
  obtain ⟨rest, hline⟩ : ∃ rest, line.toList = c :: rest := by
    cases hchars : line.toList with
    | nil => simp [hchars] at hfirst
    | cons x rest => exact ⟨rest, by simpa [hchars] using hfirst⟩
  have hpad : (indentation layout.indentWidth 1).toList = List.replicate (layout.indentWidth) ' ' := by
    rw [indentation, String.toList_ofList]
    simp
  unfold instructionPos?
  rw [hpad, hline]
  cases layout.indentWidth with
  | zero => simp [hblank, Text.digits?, Text.digitsFrom?, hdigit]
  | succ width => simp [List.replicate_succ, hblank.symm]

end Lines

/-! ## What the instructions are -/

namespace Graph

/-- An instruction that lacks its operand is the last one. -/
theorem getLast?_codeItems {code : CodeWords} {start : Nat} (hstart : start ∈ starts code) {opcode : Opcode}
    (hopcode : (decodeItem code (UInt16.ofNat start)).1 = some opcode) (htakes : opcode.takesOperand = true)
    (hnone : (decodeItem code (UInt16.ofNat start)).2 = none) :
    (codeItems code).getLast? = some (itemAt code start) := by
  have hend := size_le_of_operand_decodeItem hopcode htakes hnone
  rw [toNat_start hstart] at hend
  obtain ⟨front, behind, hsplit⟩ := List.append_of_mem hstart
  have hbehind : behind = [] := by
    have hswept : sweptWords code ≤ code.size := Nat.min_le_left _ _
    have hstride : strideAt code start = 1 := by rw [strideAt, hnone]; rfl
    rw [← List.head?_eq_none_iff, head?_behind_starts hsplit, hstride, if_neg (by omega)]
  rw [codeItems_eq_map, hsplit, hbehind, List.map_append, List.map_singleton, List.getLast?_concat]

/-- Instructions of code that does not end in a call without its id can be read. -/
theorem readable_codeItems {code : CodeWords} (hcut : endsInCalli code = false) :
    ∀ item ∈ codeItems code, item.Readable := by
  intro item hitem
  rw [codeItems_eq_map] at hitem
  obtain ⟨start, hstart, rfl⟩ := List.mem_map.1 hitem
  refine ⟨fun op hop => ?_, fun op hop hnone => ?_, fun op hop hcalli => ?_⟩
  · cases hop
    have hpos := toNat_start hstart
    have hlt : (UInt16.ofNat start).toNat < code.size := by
      rw [hpos]
      exact (lt_of_mem_starts hstart).1
    have hopcode := opcode_decodeItem hlt
    rwa [hpos] at hopcode
  · cases hop
    dsimp only at hnone ⊢
    rw [decodeItem_eq] at hnone ⊢
    split at hnone
    · rfl
    · cases hnone
  · cases hop
    dsimp only at hcalli ⊢
    by_contra hoperand
    rw [Bool.not_eq_true, Option.isSome_eq_false_iff, Option.isNone_iff_eq_none] at hoperand
    have hlast := getLast?_codeItems hstart hcalli rfl hoperand
    rw [endsInCalli, hlast, Option.any_some, Bool.and_eq_false_iff] at hcut
    simp [Item.isOpcode, Item.opcode?, itemAt, Item.ofKind, Item.opcodeItem?, hcalli, hoperand] at hcut

end Graph

namespace Decompilation

variable {image : Image} {strings : List String} {options : NamingOptions} {d : Decompilation}

/-- Disassembly leaves the instructions what they are. -/
theorem map_code_itemList (h : Pass.disassemble (.ofImage image strings options) = .ok () d) :
    d.itemList.map Item.code = (Graph.codeItems image.code).map Item.code := by
  have hview := Pass.graph_of_codeView_eq (Pass.keeps_disassemble.of_ok h)
  rw [← Graph.listing_ofCode, itemList, Graph.listing, List.map_map, List.map_map, Graph.order_of_codeView_eq hview]
  exact List.map_congr_left fun id _ => Graph.code_of_codeView_eq hview id

theorem isOpcodeItem_itemList (h : Pass.disassemble (.ofImage image strings options) = .ok () d) :
    ∀ item ∈ d.itemList, item.isOpcodeItem = true := by
  have hview := Pass.graph_of_codeView_eq (Pass.keeps_disassemble.of_ok h)
  intro item hitem
  obtain ⟨id, hid, rfl⟩ := List.mem_map.1 hitem
  rw [Graph.isOpcodeItem_eq_of_code (Graph.code_of_codeView_eq hview id)]
  rw [Graph.order_of_codeView_eq hview] at hid
  exact Graph.isOpcodeItem_ofCode ((Graph.ofCode_ordered image.code).lt_of_mem hid)

/-- The lines for an instruction: its label, if something leads to it, and what it is. -/
theorem instructionLines_eq {layout : RenderOptions} {id : ItemId}
    (h : (d.graph.item id).isOpcodeItem = true) :
    d.instructionLines layout id = (d.graph.item id).labelLine?.toList ++
      (d.graph.item id).opcodeLine?.toList.map (indentation layout.indentWidth 1 ++ ·) := by
  obtain ⟨op, hop⟩ := Option.isSome_iff_exists.1 h
  unfold Item.opcodeItem? at hop
  unfold instructionLines
  cases hkind : (d.graph.item id).kind <;> simp_all

/-- The line for a label is one, and no instruction line. -/
theorem labelLine?_eq_some (hcensus : d.graph.Census) {layout : RenderOptions} {id : ItemId}
    (hid : id ∈ d.graph.order) {line : String} (hline : (d.graph.item id).labelLine? = some line) :
    OneLine line ∧ instructionPos? layout line = none := by
  unfold Item.labelLine? at hline
  split at hline
  · obtain ⟨name, hname, rfl⟩ := Option.map_eq_some_iff.1 hline
    have hbehind : OneLine (Item.referenceText (d.graph.item id).xrefCount) :=
      (OneLine.append (by decide) (oneLine_toString _)).append (by decide)
    rcases hcensus.label_eq hid hname with rfl | ⟨pos, rfl⟩
    · exact ⟨OneLine.append (by decide) hbehind,
        instructionPos?_eq_none (c := 's') (by simp [startFunction]) (by decide) (by decide)⟩
    · exact ⟨((oneLine_labelName pos).append (by decide)).append hbehind,
        instructionPos?_eq_none (c := 'l') (by simp [labelName]) (by decide) (by decide)⟩
  · cases hline

/-- Of the lines for an instruction just one is an instruction line. -/
theorem filterMap_instructionLines (hcensus : d.graph.Census) (layout : RenderOptions) {id : ItemId}
    (hid : id ∈ d.graph.order) (hitem : (d.graph.item id).isOpcodeItem = true) :
    (d.instructionLines layout id).filterMap (fun line => (instructionPos? layout line).map (·, line)) =
      [((d.graph.item id).pos, indentation layout.indentWidth 1 ++ (d.graph.item id).opcodeLine?.getD "")] := by
  obtain ⟨op, hop⟩ := Option.isSome_iff_exists.1 hitem
  have hline := Item.opcodeLine?_eq hop
  have hlabel : (d.graph.item id).labelLine?.toList.filterMap
      (fun line => (instructionPos? layout line).map (·, line)) = [] := by
    rw [List.filterMap_eq_nil_iff]
    intro line hmem
    rw [(labelLine?_eq_some hcensus hid (Option.mem_toList.1 hmem)).2, Option.map_none]
  rw [instructionLines_eq hitem, List.filterMap_append, hlabel, hline]
  simp [instructionPos?_opcodeLine hline]

/-- The lines of a disassembly are lines, and its instruction lines are those of the instructions in their order. -/
theorem disassemblyLines (h : Pass.disassemble (.ofImage image strings options) = .ok () d)
    (hlines : ∀ entry ∈ image.functions.entries, OneLine entry.2.name) (layout : RenderOptions) :
    (∀ line ∈ d.graph.order.flatMap (d.instructionLines layout), OneLine line) ∧
    (d.graph.order.flatMap (d.instructionLines layout)).filterMap
        (fun line => (instructionPos? layout line).map (·, line)) =
      d.itemList.map fun item => (item.pos, indentation layout.indentWidth 1 ++ item.opcodeLine?.getD "") := by
  obtain ⟨hcensus, -, haimed⟩ := Pass.aimed_disassemble h
  have hitem (id : ItemId) (hid : id ∈ d.graph.order) : (d.graph.item id).isOpcodeItem = true :=
    isOpcodeItem_itemList h _ (List.mem_map_of_mem hid)
  refine ⟨fun line hline => ?_, ?_⟩
  · obtain ⟨id, hid, hline⟩ := List.mem_flatMap.1 hline
    rw [instructionLines_eq (hitem id hid), List.mem_append] at hline
    rcases hline with hline | hline
    · have hlabel : OneLine line ∧ instructionPos? layout line = none :=
        labelLine?_eq_some hcensus hid (Option.mem_toList.1 hline)
      exact hlabel.1
    · obtain ⟨text, htext, rfl⟩ := List.mem_map.1 hline
      refine OneLine.append ?_ ((haimed id hid).oneLine hlines (Option.mem_toList.1 htext))
      rw [OneLine, indentation, String.toList_ofList]
      exact fun hmem => absurd (List.eq_of_mem_replicate hmem) (by decide)
  · rw [List.filterMap_flatMap, itemList, List.map_map, List.map_eq_flatMap]
    exact List.flatMap_congr fun id hid => filterMap_instructionLines hcensus layout hid (hitem id hid)

/-- Listings of conversations that import the same functions show the same instructions only if the instructions are
the same. -/
theorem map_code_eq_of_lines_eq {image' : Image} {strings' : List String} {options' : NamingOptions}
    {d' : Decompilation} (h : Pass.disassemble (.ofImage image strings options) = .ok () d)
    (h' : Pass.disassemble (.ofImage image' strings' options') = .ok () d')
    (himports : image'.functions = image.functions) (hnames : (image.functions.entries.map (·.2.name)).Nodup)
    (hcut : endsInCalli image.code = false) (hcut' : endsInCalli image'.code = false)
    (hlines : d'.itemList.map (fun item => item.opcodeLine?.getD "") =
      d.itemList.map fun item => item.opcodeLine?.getD "") :
    d'.itemList.map Item.code = d.itemList.map Item.code := by
  have hreadable {image : Image} {strings : List String} {options : NamingOptions} {d : Decompilation}
      (h : Pass.disassemble (.ofImage image strings options) = .ok () d) (hcut : endsInCalli image.code = false)
      (item : Item) (hitem : item ∈ d.itemList) : item.Readable := by
    have hmem := List.mem_map_of_mem (f := Item.code) hitem
    rw [map_code_itemList h] at hmem
    obtain ⟨old, hold, hcode⟩ := List.mem_map.1 hmem
    exact (Graph.readable_codeItems hcut old hold).of_code hcode.symm
  have haimed {image : Image} {strings : List String} {options : NamingOptions} {d : Decompilation}
      (h : Pass.disassemble (.ofImage image strings options) = .ok () d) (item : Item) (hitem : item ∈ d.itemList) :
      item.Aimed image.functions := by
    obtain ⟨id, hid, rfl⟩ := List.mem_map.1 hitem
    exact (Pass.aimed_disassemble h).2.2 id hid
  have hlength := congrArg List.length hlines
  rw [List.length_map, List.length_map] at hlength
  apply List.ext_getElem
  · rw [List.length_map, List.length_map, hlength]
  · intro n hn hn'
    rw [List.length_map] at hn hn'
    have hline := List.getElem_of_eq hlines (by rwa [List.length_map])
    rw [List.getElem_map, List.getElem_map] at hline
    rw [List.getElem_map, List.getElem_map]
    have hmem := List.getElem_mem hn
    have hmem' := List.getElem_mem hn'
    have hitem' := isOpcodeItem_itemList h' _ hmem
    have hitem := isOpcodeItem_itemList h _ hmem'
    obtain ⟨op', hop'⟩ := Option.isSome_iff_exists.1 hitem'
    obtain ⟨op, hop⟩ := Option.isSome_iff_exists.1 hitem
    refine Item.code_eq_of_opcodeLine?_eq hnames (himports ▸ haimed h' _ hmem) (haimed h _ hmem')
      (hreadable h' hcut' _ hmem) (hreadable h hcut _ hmem') hitem' hitem ?_
    rw [Item.opcodeLine?_eq hop', Item.opcodeLine?_eq hop] at hline ⊢
    exact congrArg some hline

/-- The disassembly of a conversation is a list of lines.  Those that begin with a position are one for each
instruction, in the order of the code.  Conversations that import the same functions, each under a name of its own,
have the same disassembly only if they have the same code. -/
theorem renderInstructions_determines {image image' : Image} {strings strings' : List String}
    {options options' : NamingOptions} {d d' : Decompilation} (layout : RenderOptions)
    (hsize : image.code.size ≤ 65536) (hsize' : image'.code.size ≤ 65536)
    (himports : image'.functions = image.functions) (hslot : image'.slot = image.slot)
    (hnames : (image.functions.entries.map (·.2.name)).Nodup)
    (hlines : ∀ entry ∈ image.functions.entries, OneLine entry.2.name)
    (hcut : endsInCalli image.code = false) (hcut' : endsInCalli image'.code = false)
    (h : Pass.disassemble (.ofImage image strings options) = .ok () d)
    (h' : Pass.disassemble (.ofImage image' strings' options') = .ok () d') :
    (d'.renderInstructions layout = d.renderInstructions layout → image'.code = image.code) ∧
    ∃ lines, d.renderInstructions layout = unlines (listingHead image.slot layout ++ lines) ∧
      (∀ line ∈ lines, OneLine line) ∧
      lines.filterMap (instructionPos? layout) = (Graph.codeItems image.code).map (·.pos) ∧
      (lines.filterMap (instructionPos? layout)).Pairwise (· < ·) := by
  obtain ⟨-, hslotKept, -⟩ := Pass.aimed_disassemble h
  obtain ⟨-, hslotKept', -⟩ := Pass.aimed_disassemble h'
  obtain ⟨hone, hinstructions⟩ := disassemblyLines h hlines layout
  obtain ⟨hone', hinstructions'⟩ := disassemblyLines h' (himports ▸ hlines) layout
  have hpos : (d.graph.order.flatMap (d.instructionLines layout)).filterMap (instructionPos? layout) =
      (Graph.codeItems image.code).map (·.pos) := by
    have hfst := congrArg (List.map Prod.fst) hinstructions
    rw [List.map_filterMap, List.map_map] at hfst
    have hcode := congrArg (List.map Prod.fst) (map_code_itemList h)
    rw [List.map_map, List.map_map] at hcode
    simp only [Option.map_map, Function.comp_def, Option.map_id'] at hfst
    exact hfst.trans hcode
  refine ⟨fun htext => ?_, _, ?_, hone, hpos, ?_⟩
  · rw [renderInstructions, renderInstructions, unlines_append, unlines_append, hslotKept, hslotKept', hslot,
      String.append_right_inj] at htext
    have hall := eq_of_unlines_eq hone' hone htext
    rw [hall, hinstructions] at hinstructions'
    have hshown := congrArg (List.map Prod.snd) hinstructions'
    simp only [List.map_map, Function.comp_def] at hshown
    have hsaid : d'.itemList.map (fun item => item.opcodeLine?.getD "") =
        d.itemList.map fun item => item.opcodeLine?.getD "" := by
      refine (List.map_inj_right (f := (indentation layout.indentWidth 1 ++ ·))
        fun _ _ h => (String.append_right_inj _).1 h).1 ?_
      rw [List.map_map, List.map_map]
      exact hshown.symm
    have hcode := map_code_eq_of_lines_eq h h' himports hnames hcut hcut' hsaid
    rw [map_code_itemList h, map_code_itemList h'] at hcode
    have hwords := congrArg (List.flatMap fun code => code.2.elim [] fun op => op.1 :: op.2.2.toList) hcode
    simp only [List.flatMap_map, ← Item.words_eq, Graph.words_codeItems hsize, Graph.words_codeItems hsize']
      at hwords
    exact Array.toList_inj.1 hwords
  · rw [renderInstructions, hslotKept]
  · rw [hpos, List.pairwise_map]
    exact Graph.pairwise_codeItems image.code

/-- A push of `value`, a branch over a call of the imported function, a jump back, a word that is no instruction, a call
to nowhere and a push that is cut off. -/
def cutOff (value : UInt16) : Image :=
  { Image.ofCode #[22, value, 16, 3, 20, 7, 15, 0, 0x1234, 19, 0xffff, 22] with
    functions := .ofList [(7, ⟨"babl_menu", .int⟩)] }

/-- What is pushed shows in the listing. -/
theorem renderInstructions_determines_cutOff : ∃ d d',
    Pass.disassemble (.ofImage (cutOff 5) [] ⟨false, .empty⟩) = .ok () d ∧
    Pass.disassemble (.ofImage (cutOff 6) ["Hello"] ⟨true, .empty⟩) = .ok () d' ∧
    d'.renderInstructions .standard ≠ d.renderInstructions .standard ∧
    ∃ lines, d.renderInstructions .standard = unlines (listingHead none .standard ++ lines) ∧
      lines.filterMap (instructionPos? .standard) = [0, 2, 4, 6, 8, 9, 11] := by
  obtain ⟨_, d, h, -⟩ := Fallible.succeedsWith_iff.1 (show Fallible.succeedsWith (fun _ _ => true)
    (Pass.disassemble (.ofImage (cutOff 5) [] ⟨false, .empty⟩)) = true by decide +kernel)
  obtain ⟨_, d', h', -⟩ := Fallible.succeedsWith_iff.1 (show Fallible.succeedsWith (fun _ _ => true)
    (Pass.disassemble (.ofImage (cutOff 6) ["Hello"] ⟨true, .empty⟩)) = true by decide +kernel)
  have hsize (value : UInt16) : (cutOff value).code.size ≤ 65536 := Nat.le_of_ble_eq_true rfl
  obtain ⟨hsame, lines, htext, -, hpos, -⟩ := renderInstructions_determines .standard (hsize 5) (hsize 6) rfl rfl
    (by decide) (by decide) (by decide +kernel) (by decide +kernel) h h'
  refine ⟨d, d', h, h', fun htexts => absurd (hsame htexts) (by decide), lines, htext, ?_⟩
  rw [hpos]
  decide +kernel

end Decompilation

end Parley
