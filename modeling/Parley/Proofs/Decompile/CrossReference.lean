import Parley.Decompile.CrossReference
import Parley.Proofs.Fallible
import Parley.Proofs.Listing.Order
set_option autoImplicit false

/-!
# What cross references say

Collecting the references changes labels, counts and targets only: the instructions stay where and what
they are.  When it succeeds every jump, branch and call, a call to nowhere apart, carries the position it
leads to, and an item stands there.
-/

namespace Parley

/-- The position of an item, and word, opcode and operand if it is an instruction. -/
def Item.code (item : Item) : UInt16 × Option (UInt16 × Option Opcode × Option UInt16) :=
  (item.pos, item.opcodeItem?.map fun op => (op.word, op.opcode, op.operand))

/-- The item without what cross references say of it. -/
def Item.bare (item : Item) : Item :=
  Item.withTarget { item with label := none, xrefCount := 0 } none none

/-- The position that an item leads to by its instruction.  A call to nowhere leads nowhere. -/
def Item.leadsTo? (item : Item) : Option UInt16 :=
  item.opcodeItem?.bind fun op => op.opcode.bind fun opcode =>
    ((Instruction.mk opcode op.operand).jumpTarget? item.pos).filter fun target =>
      ¬ (opcode = .call ∧ target = nowhere)

namespace Item

theorem opcodeItem?_withTarget (item : Item) (label : Option String) (pos : Option UInt16) :
    (item.withTarget label pos).opcodeItem? =
      item.opcodeItem?.map fun op => { op with targetLabel := label, targetPos := pos } := by
  obtain ⟨_, _, _, _, kind⟩ := item
  cases kind <;> rfl

theorem pos_withTarget (item : Item) (label : Option String) (pos : Option UInt16) :
    (item.withTarget label pos).pos = item.pos := by
  obtain ⟨_, _, _, _, kind⟩ := item
  cases kind <;> rfl

theorem label_withTarget (item : Item) (label : Option String) (pos : Option UInt16) :
    (item.withTarget label pos).label = item.label := by
  obtain ⟨_, _, _, _, kind⟩ := item
  cases kind <;> rfl

theorem code_withTarget (item : Item) (label : Option String) (pos : Option UInt16) :
    (item.withTarget label pos).code = item.code := by
  simp [code, opcodeItem?_withTarget, pos_withTarget, Option.map_map, Function.comp_def]

theorem bare_withTarget (item : Item) (label : Option String) (pos : Option UInt16) :
    (item.withTarget label pos).bare = item.bare := by
  obtain ⟨_, _, _, _, kind⟩ := item
  cases kind <;> rfl

theorem code_bare (item : Item) : item.bare.code = item.code := code_withTarget _ none none

theorem code_eq_of_bare_eq {a b : Item} (h : a.bare = b.bare) : a.code = b.code := by
  rw [← code_bare a, h, code_bare]

/-- Calls of imported functions lead nowhere. -/
theorem opcode?_ne_calli_of_leadsTo? {item : Item} {target : UInt16}
    (h : item.leadsTo? = some target) : item.opcode? ≠ some .calli := by
  obtain ⟨op, hop, h⟩ := Option.bind_eq_some_iff.1 h
  obtain ⟨opcode, hopcode, h⟩ := Option.bind_eq_some_iff.1 h
  obtain ⟨hjump, -⟩ := Option.filter_eq_some_iff.1 h
  intro hcalli
  rw [opcode?, hop, Option.bind_some, hopcode] at hcalli
  cases hcalli
  cases hoperand : op.operand <;> simp [hoperand, Instruction.jumpTarget?] at hjump

/-- The opcode of an item is a matter of its code. -/
theorem opcode?_of_code {old new : Item} (h : new.code = old.code) : new.opcode? = old.opcode? := by
  have hcode := congrArg (fun code => code.2.bind fun op => op.2.1) h
  simpa [code, opcode?, Option.bind_map, Function.comp_def] using hcode

/-- The operand of an item is a matter of its code. -/
theorem operand_of_code {old new : Item} (h : new.code = old.code) :
    new.opcodeItem?.bind (·.operand) = old.opcodeItem?.bind (·.operand) := by
  have hcode := congrArg (fun code => code.2.bind fun op => op.2.2) h
  simpa [code, Option.bind_map, Function.comp_def] using hcode

theorem operandOrZero_of_code {old new : Item} (h : new.code = old.code) :
    new.operandOrZero = old.operandOrZero := by
  rw [operandOrZero, operand_of_code h, operandOrZero]

/-- Where an item leads is a matter of its code. -/
theorem leadsTo?_congr {a b : Item} (h : a.code = b.code) : a.leadsTo? = b.leadsTo? := by
  simp only [code, Prod.mk.injEq] at h
  obtain ⟨hpos, hop⟩ := h
  unfold leadsTo?
  rw [hpos]
  cases ha : a.opcodeItem? <;> cases hb : b.opcodeItem? <;> simp_all

end Item

namespace Graph

/-- What a graph says of the code: the order of its items, where they stand and what instructions they
are. -/
def codeView (g : Graph) : List ItemId × Nat × (UInt16 → Option ItemId) ×
    (ItemId → UInt16 × Option (UInt16 × Option Opcode × Option UInt16)) :=
  (g.order, g.size, g.findPos?, fun id => (g.item id).code)

theorem codeView_modify {f : Item → Item} (hf : ∀ item, (f item).code = item.code) (g : Graph)
    (id : ItemId) : (g.modify id f).codeView = g.codeView := by
  have hcode : (fun other => ((g.modify id f).item other).code) = fun other => (g.item other).code :=
    funext fun other => modify_keeps hf g id other
  have hfind : (g.modify id f).findPos? = g.findPos? := rfl
  simp only [codeView, order_modify, size_modify, hcode, hfind]

/-- The item carries the position it leads to, and something stands there. -/
def TargetKnown (g : Graph) (id : ItemId) : Prop :=
  ∀ target, (g.item id).leadsTo? = some target →
    (g.item id).targetPos? = some target ∧ (g.findPos? target).isSome

theorem code_of_codeView_eq {g g' : Graph} (h : g'.codeView = g.codeView) (id : ItemId) :
    (g'.item id).code = (g.item id).code := by
  simp only [codeView, Prod.mk.injEq] at h
  exact congrFun h.2.2.2 id

theorem findPos?_of_codeView_eq {g g' : Graph} (h : g'.codeView = g.codeView) (pos : UInt16) :
    g'.findPos? pos = g.findPos? pos := by
  simp only [codeView, Prod.mk.injEq] at h
  exact congrFun h.2.2.1 pos

theorem order_of_codeView_eq {g g' : Graph} (h : g'.codeView = g.codeView) : g'.order = g.order := by
  simp only [codeView, Prod.mk.injEq] at h
  exact h.1

theorem size_of_codeView_eq {g g' : Graph} (h : g'.codeView = g.codeView) : g'.size = g.size := by
  simp only [codeView, Prod.mk.injEq] at h
  exact h.2.1

theorem TargetKnown.congr {g g' : Graph} {id : ItemId} (h : g.TargetKnown id)
    (hcode : g'.codeView = g.codeView)
    (htarget : (g'.item id).targetPos? = (g.item id).targetPos?) : g'.TargetKnown id := by
  intro target hleads
  rw [Item.leadsTo?_congr (code_of_codeView_eq hcode id)] at hleads
  rw [htarget, findPos?_of_codeView_eq hcode]
  exact h target hleads

end Graph

namespace Pass

open Fallible

/-! ## Evaluation -/

theorem reference_apply (pos target : UInt16) (d : Decompilation) :
    reference pos target d = match d.graph.findPos? target with
      | none => .error (.unresolvedJumpTarget pos target) d
      | some site =>
        .ok ((d.graph.modify site (·.referenced target)).item site).label
          (d.onGraph (·.modify site (·.referenced target))) := by
  unfold reference
  rw [bind_apply]
  simp only [get_apply]
  cases d.graph.findPos? target with
  | none => rfl
  | some site => rfl

theorem importedName_apply (pos id : UInt16) (d : Decompilation) :
    importedName pos id d = match d.importedFunctions.get? id with
      | none => .error (.unknownIntrinsic pos id) d
      | some item => .ok item.name d := by
  unfold importedName
  rw [bind_apply]
  simp only [get_apply]
  cases d.importedFunctions.get? id with
  | none => rfl
  | some item => rfl

/-- Resolving an item changes nothing, names the called function, or refers to the position where it
leads. -/
theorem resolveTarget_apply (id : ItemId) (d : Decompilation) :
    resolveTarget id d =
      if (d.graph.item id).opcode? = some .calli then
        match importedName (d.graph.item id).pos (d.graph.item id).operandOrZero d with
        | .ok name d => .ok () (d.onGraph (·.modify id (·.withTarget (some name) none)))
        | .error fault d => .error fault d
      else
        match (d.graph.item id).leadsTo? with
        | none => .ok () d
        | some target =>
          match reference (d.graph.item id).pos target d with
          | .ok label d => .ok () (d.onGraph (·.modify id (·.withTarget label (some target))))
          | .error fault d => .error fault d := by
  unfold resolveTarget Item.leadsTo?
  rw [bind_apply]
  simp only [get_apply]
  cases hop : (d.graph.item id).opcodeItem? with
  | none =>
    simp only [Item.opcode?, hop, Option.bind_none]
    rfl
  | some op =>
    cases hopcode : op.opcode with
    | none =>
      simp only [Item.opcode?, hop, hopcode, Option.bind_some, Option.bind_none]
      rfl
    | some opcode =>
      simp only [Item.opcode?, hop, hopcode, Option.bind_some]
      by_cases hcalli : opcode = .calli
      · subst hcalli
        simp only [if_true]
        rw [bind_apply]
        cases importedName (d.graph.item id).pos (d.graph.item id).operandOrZero d with
        | ok name d => rfl
        | error fault d => rfl
      · rw [if_neg (by simpa using hcalli)]
        cases hjump : (Instruction.mk opcode op.operand).jumpTarget? (d.graph.item id).pos with
        | none =>
          simp only [hjump]
          rfl
        | some target =>
          by_cases hnowhere : opcode = .call ∧ target = nowhere
          · have hfilter : (some target).filter
                (fun target => ¬ (opcode = .call ∧ target = nowhere)) = none := by
              simp [Option.filter, hnowhere.1, hnowhere.2]
            simp only [hjump, hfilter, if_pos hnowhere]
            rfl
          · have hfilter : (some target).filter
                (fun target => ¬ (opcode = .call ∧ target = nowhere)) = some target := by
              rw [Option.filter_some]
              simpa using hnowhere
            simp only [hjump, hfilter, if_neg hnowhere]
            rw [bind_apply]
            cases reference (d.graph.item id).pos target d with
            | ok label d => rfl
            | error fault d => rfl

/-! ## What stays -/

/-- What a decompilation says of the code and of what it imports. -/
def codeView (d : Decompilation) := (d.graph.codeView, d.importedFunctions)

theorem graph_of_codeView_eq {d d' : Decompilation} (h : codeView d' = codeView d) :
    d'.graph.codeView = d.graph.codeView :=
  congrArg Prod.fst h

theorem importedFunctions_of_codeView_eq {d d' : Decompilation} (h : codeView d' = codeView d) :
    d'.importedFunctions = d.importedFunctions :=
  congrArg Prod.snd h

theorem codeView_modify {f : Item → Item} (hf : ∀ item, (f item).code = item.code) (id : ItemId)
    (d : Decompilation) : codeView (d.onGraph (·.modify id f)) = codeView d :=
  congrArg (·, d.importedFunctions) (Graph.codeView_modify hf d.graph id)

/-- A view of a decompilation shows nothing of what cross references say. -/
def Blind {τ : Type} (view : Decompilation → τ) : Prop :=
  ∀ (d : Decompilation) (id : ItemId) (f : Item → Item), (∀ item, (f item).bare = item.bare) →
    view (d.onGraph (·.modify id f)) = view d

theorem blind_codeView : Blind codeView := fun d id _ hf =>
  codeView_modify (fun item => Item.code_eq_of_bare_eq (hf item)) id d

namespace Blind

variable {τ : Type} {view : Decompilation → τ}

theorem reference (h : Blind view) (pos target : UInt16) : Keeps view (reference pos target) := by
  intro d
  rw [reference_apply]
  cases d.graph.findPos? target with
  | none => rfl
  | some site => exact h d site _ fun _ => rfl

theorem importedName (pos id : UInt16) : Keeps view (importedName pos id) := by
  intro d
  rw [importedName_apply]
  cases d.importedFunctions.get? id with
  | none => rfl
  | some item => rfl

theorem resolveTarget (h : Blind view) (id : ItemId) : Keeps view (resolveTarget id) := by
  intro d
  rw [resolveTarget_apply]
  split
  · have hkeeps : Keeps view (Pass.importedName _ _) :=
      importedName (d.graph.item id).pos (d.graph.item id).operandOrZero
    replace hkeeps := hkeeps d
    cases hname : Pass.importedName (d.graph.item id).pos (d.graph.item id).operandOrZero d with
    | ok name d' =>
      rw [hname] at hkeeps
      exact (h d' id _ fun item => Item.bare_withTarget item _ _).trans hkeeps
    | error fault d' =>
      rw [hname] at hkeeps
      exact hkeeps
  · cases (d.graph.item id).leadsTo? with
    | none => rfl
    | some target =>
      have hkeeps := h.reference (d.graph.item id).pos target d
      dsimp only
      cases href : Pass.reference (d.graph.item id).pos target d with
      | ok label d' =>
        rw [href] at hkeeps
        exact (h d' id _ fun item => Item.bare_withTarget item _ _).trans hkeeps
      | error fault d' =>
        rw [href] at hkeeps
        exact hkeeps

theorem forM_resolveTarget (h : Blind view) (ids : List ItemId) :
    Keeps view (ids.forM Pass.resolveTarget) := by
  induction ids with
  | nil => exact keeps_pure _
  | cons id rest ih => exact (h.resolveTarget id).bind fun _ => ih

end Blind

theorem keeps_resolveTarget (id : ItemId) : Keeps codeView (resolveTarget id) :=
  blind_codeView.resolveTarget id

theorem collectReferences_apply (d : Decompilation) :
    collectReferences d = match d.graph.first? with
      | none => .error .emptyCode d
      | some first =>
        d.graph.order.forM resolveTarget
          (d.onGraph (·.modify first fun item =>
            { item with label := some startFunction, xrefCount := 1 })) := by
  unfold collectReferences
  rw [bind_apply]
  simp only [get_apply]
  cases d.graph.first? with
  | none => rfl
  | some first => rfl

/-- Collecting the references changes only what cross references say. -/
theorem Blind.collectReferences {τ : Type} {view : Decompilation → τ} (h : Blind view) :
    Keeps view collectReferences := by
  intro d
  rw [collectReferences_apply]
  cases d.graph.first? with
  | none => rfl
  | some first => exact (h.forM_resolveTarget _ _).trans (h d first _ fun _ => rfl)

theorem keeps_collectReferences : Keeps codeView collectReferences := blind_codeView.collectReferences

theorem disassemble_apply (d : Decompilation) :
    disassemble d = if d.stage = .fresh then
      match collectReferences d with
      | .ok () d => .ok () { d with stage := .disassembled }
      | .error fault d => .error fault d
      else .ok () d := by
  unfold disassemble
  rw [bind_apply]
  simp only [get_apply]
  split
  · rw [bind_apply]
    cases collectReferences d with
    | ok _ d' => rfl
    | error fault d' => rfl
  · rfl

/-! ## What is found out -/

theorem reference_eq_ok {pos target : UInt16} {label : Option String} {d d' : Decompilation}
    (h : reference pos target d = .ok label d') :
    ∃ site, d.graph.findPos? target = some site ∧
      d' = d.onGraph (·.modify site (·.referenced target)) := by
  rw [reference_apply] at h
  cases hsite : d.graph.findPos? target with
  | none =>
    rw [hsite] at h
    cases h
  | some site =>
    rw [hsite] at h
    cases h
    exact ⟨site, rfl, rfl⟩

theorem importedName_eq_ok {pos id : UInt16} {name : String} {d d' : Decompilation}
    (h : importedName pos id d = .ok name d') : d' = d := by
  rw [importedName_apply] at h
  cases hitem : d.importedFunctions.get? id with
  | none =>
    rw [hitem] at h
    cases h
  | some item =>
    rw [hitem] at h
    cases h
    rfl

/-- Resolving an item that leads somewhere refers to that place and takes note of it. -/
theorem resolveTarget_leading {id : ItemId} {target : UInt16} {d d' : Decompilation}
    (hleads : (d.graph.item id).leadsTo? = some target) (h : resolveTarget id d = .ok () d') :
    ∃ site label, d.graph.findPos? target = some site ∧
      d' = (d.onGraph (·.modify site (·.referenced target))).onGraph
        (·.modify id (·.withTarget label (some target))) := by
  rw [resolveTarget_apply, if_neg (Item.opcode?_ne_calli_of_leadsTo? hleads), hleads] at h
  dsimp only at h
  split at h
  · rename_i label d₂ href
    obtain ⟨site, hsite, rfl⟩ := reference_eq_ok href
    cases h
    exact ⟨site, label, hsite, rfl⟩
  · cases h

/-- The targets of other items stay as they are. -/
theorem targetPos?_resolveTarget {id other : ItemId} {d d' : Decompilation} (hne : other ≠ id)
    (h : resolveTarget id d = .ok () d') :
    (d'.graph.item other).targetPos? = (d.graph.item other).targetPos? := by
  cases hleads : (d.graph.item id).leadsTo? with
  | some target =>
    obtain ⟨site, label, -, rfl⟩ := resolveTarget_leading hleads h
    calc (((d.graph.modify site _).modify id _).item other).targetPos?
        = ((d.graph.modify site (·.referenced target)).item other).targetPos? :=
          congrArg Item.targetPos? (Graph.item_modify_of_ne hne _)
      _ = (d.graph.item other).targetPos? :=
          Graph.modify_keeps (p := Item.targetPos?) (f := (·.referenced target)) (fun _ => rfl)
            d.graph site other
  | none =>
    rw [resolveTarget_apply, hleads] at h
    split at h
    · split at h
      · rename_i name d₂ hname
        cases importedName_eq_ok hname
        cases h
        exact congrArg Item.targetPos? (Graph.item_modify_of_ne hne _)
      · cases h
    · cases h
      rfl

/-- Resolving an item makes its target known. -/
theorem targetKnown_resolveTarget {id : ItemId} {d d' : Decompilation} (hid : id < d.graph.size)
    (h : resolveTarget id d = .ok () d') : d'.graph.TargetKnown id := by
  intro target hleads
  have hview := graph_of_codeView_eq ((keeps_resolveTarget id).of_ok h)
  rw [Item.leadsTo?_congr (Graph.code_of_codeView_eq hview id)] at hleads
  rw [Graph.findPos?_of_codeView_eq hview]
  obtain ⟨site, label, hsite, rfl⟩ := resolveTarget_leading hleads h
  refine ⟨?_, by rw [hsite]; rfl⟩
  have hopcode : ((d.graph.modify site (·.referenced target)).item id).opcodeItem? =
      (d.graph.item id).opcodeItem? :=
    Graph.modify_keeps (p := Item.opcodeItem?) (f := (·.referenced target)) (fun _ => rfl)
      d.graph site id
  have hid' : id < (d.graph.modify site (·.referenced target)).size := by
    rw [Graph.size_modify]
    exact hid
  change (((d.graph.modify site _).modify id _).item id).targetPos? = _
  rw [Graph.item_modify_self hid']
  unfold Item.targetPos?
  rw [Item.opcodeItem?_withTarget, hopcode]
  obtain ⟨op, hop, -⟩ := Option.bind_eq_some_iff.1 hleads
  rw [hop]
  rfl

/-- What is known of targets stays known. -/
theorem TargetKnown.resolveTarget {id other : ItemId} {d d' : Decompilation}
    (hid : id < d.graph.size) (hknown : d.graph.TargetKnown other)
    (h : resolveTarget id d = .ok () d') : d'.graph.TargetKnown other := by
  by_cases hne : other = id
  · subst hne
    exact targetKnown_resolveTarget hid h
  · exact hknown.congr (graph_of_codeView_eq ((keeps_resolveTarget id).of_ok h))
      (targetPos?_resolveTarget hne h)

theorem targetKnown_forM_resolveTarget {ids : List ItemId} {d d' : Decompilation}
    (hids : ∀ id ∈ ids, id < d.graph.size) (h : ids.forM resolveTarget d = .ok () d') :
    (∀ id ∈ ids, d'.graph.TargetKnown id) ∧
      ∀ id, d.graph.TargetKnown id → d'.graph.TargetKnown id := by
  induction ids generalizing d with
  | nil =>
    cases h
    exact ⟨by simp, fun _ => id⟩
  | cons id rest ih =>
    have hbind : (resolveTarget id >>= fun _ => rest.forM resolveTarget) d = .ok () d' := h
    obtain ⟨_, d₁, hfirst, hrest⟩ := bind_eq_ok.1 hbind
    have hid : id < d.graph.size := hids id List.mem_cons_self
    have hsize : d₁.graph.size = d.graph.size :=
      Graph.size_of_codeView_eq (graph_of_codeView_eq ((keeps_resolveTarget id).of_ok hfirst))
    have hlater := ih (fun other hother => by
      rw [hsize]
      exact hids other (List.mem_cons_of_mem _ hother)) hrest
    refine ⟨?_, fun other hother => hlater.2 other (TargetKnown.resolveTarget hid hother hfirst)⟩
    intro other hother
    rcases List.mem_cons.1 hother with rfl | hother
    · exact hlater.2 _ (targetKnown_resolveTarget hid hfirst)
    · exact hlater.1 other hother

/-- What disassembly does first: it makes a start and resolves all items. -/
theorem disassemble_eq_ok {d d' : Decompilation} (hfresh : d.stage = .fresh)
    (h : disassemble d = .ok () d') :
    ∃ first d₁, d.graph.first? = some first ∧
      d.graph.order.forM resolveTarget
        (d.onGraph (·.modify first fun item =>
          { item with label := some startFunction, xrefCount := 1 })) = .ok () d₁ ∧
      d' = { d₁ with stage := .disassembled } := by
  rw [disassemble_apply, if_pos hfresh, collectReferences_apply] at h
  cases hfirst : d.graph.first? with
  | none =>
    rw [hfirst] at h
    cases h
  | some first =>
    rw [hfirst] at h
    dsimp only at h
    split at h
    · rename_i d₁ hall
      cases h
      exact ⟨first, d₁, rfl, hall, rfl⟩
    · cases h

theorem keeps_disassemble : Keeps codeView disassemble := by
  intro d
  rw [disassemble_apply]
  split
  · have hkeeps := keeps_collectReferences d
    cases hcollect : collectReferences d with
    | ok _ d₁ =>
      rw [hcollect] at hkeeps
      exact hkeeps
    | error fault d₁ =>
      rw [hcollect] at hkeeps
      exact hkeeps
  · rfl

/-- After a successful disassembly the target of every item is known. -/
theorem targetKnown_disassemble {d d' : Decompilation} (hordered : d.graph.Ordered)
    (hfresh : d.stage = .fresh) (h : disassemble d = .ok () d') {id : ItemId}
    (hid : id < d.graph.size) : d'.graph.TargetKnown id := by
  obtain ⟨first, d₁, -, hall, rfl⟩ := disassemble_eq_ok hfresh h
  refine (targetKnown_forM_resolveTarget ?_ hall).1 id ((hordered.mem_order id).2 hid)
  intro other hother
  change other < (d.graph.modify _ _).size
  rw [Graph.size_modify]
  exact hordered.lt_of_mem hother

/-! ## When it succeeds -/

/-- An item names an imported function, or leads to a place where something stands, if it is to. -/
def Resolvable (d : Decompilation) (id : ItemId) : Prop :=
  ((d.graph.item id).opcode? = some .calli →
    (d.importedFunctions.get? (d.graph.item id).operandOrZero).isSome) ∧
  ∀ target, (d.graph.item id).leadsTo? = some target → (d.graph.findPos? target).isSome

theorem Resolvable.congr {d d' : Decompilation} {id : ItemId} (h : Resolvable d id)
    (hview : codeView d' = codeView d) : Resolvable d' id := by
  have hcode := Graph.code_of_codeView_eq (graph_of_codeView_eq hview) id
  unfold Resolvable
  rw [Item.opcode?_of_code hcode, Item.operandOrZero_of_code hcode,
    importedFunctions_of_codeView_eq hview, Item.leadsTo?_congr hcode]
  simp only [Graph.findPos?_of_codeView_eq (graph_of_codeView_eq hview)]
  exact h

theorem exists_resolveTarget {d : Decompilation} {id : ItemId} (h : Resolvable d id) :
    ∃ d', resolveTarget id d = .ok () d' := by
  rw [resolveTarget_apply]
  split
  · rename_i hcalli
    obtain ⟨item, hitem⟩ := Option.isSome_iff_exists.1 (h.1 hcalli)
    rw [importedName_apply, hitem]
    exact ⟨_, rfl⟩
  · cases hleads : (d.graph.item id).leadsTo? with
    | none => exact ⟨d, rfl⟩
    | some target =>
      obtain ⟨site, hsite⟩ := Option.isSome_iff_exists.1 (h.2 target hleads)
      dsimp only
      rw [reference_apply, hsite]
      exact ⟨_, rfl⟩

theorem exists_forM_resolveTarget {ids : List ItemId} {d : Decompilation}
    (h : ∀ id ∈ ids, Resolvable d id) : ∃ d', ids.forM resolveTarget d = .ok () d' := by
  induction ids generalizing d with
  | nil => exact ⟨d, rfl⟩
  | cons id rest ih =>
    obtain ⟨d₁, hfirst⟩ := exists_resolveTarget (h id List.mem_cons_self)
    obtain ⟨d', hrest⟩ := ih (d := d₁) fun other hother =>
      (h other (List.mem_cons_of_mem _ hother)).congr ((keeps_resolveTarget id).of_ok hfirst)
    refine ⟨d', ?_⟩
    change (resolveTarget id >>= fun _ => rest.forM resolveTarget) d = _
    rw [bind_of_ok hfirst]
    exact hrest

/-- Code disassembles if everything in it can be resolved. -/
theorem exists_disassemble {d : Decompilation} {first : ItemId} (hfresh : d.stage = .fresh)
    (hfirst : d.graph.first? = some first) (h : ∀ id ∈ d.graph.order, Resolvable d id) :
    ∃ d', disassemble d = .ok () d' := by
  rw [disassemble_apply, if_pos hfresh, collectReferences_apply, hfirst]
  dsimp only
  have hstart : codeView (d.onGraph (·.modify first fun item =>
      { item with label := some startFunction, xrefCount := 1 })) = codeView d := by
    refine codeView_modify ?_ first d
    exact fun _ => rfl
  obtain ⟨d', hall⟩ := exists_forM_resolveTarget fun id hid => (h id hid).congr hstart
  rw [hall]
  exact ⟨_, rfl⟩

end Pass

end Parley
