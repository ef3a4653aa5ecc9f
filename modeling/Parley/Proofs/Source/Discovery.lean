import Parley.Proofs.Decompile.CrossReference
import Parley.Proofs.Listing.Search
import Parley.Proofs.Source.Listing
import Parley.Decompile.Function
import Mathlib.Data.List.TakeWhile
set_option autoImplicit false

/-!
# Discovery of a straight-line function

Straight-line code refers to nothing, so that collecting references only labels its start.  The prologue
and the epilogue of its only function are found, and boundaries are put before them.
-/

namespace Parley

/-! ## References -/

namespace Pass

open Fallible

theorem resolveTarget_quiet {id : ItemId} {d : Decompilation}
    (hopcode : (d.graph.item id).opcode? ≠ some .calli)
    (hleads : (d.graph.item id).leadsTo? = none) : resolveTarget id d = .ok () d := by
  rw [resolveTarget_apply, if_neg hopcode, hleads]

theorem forM_resolveTarget_quiet {ids : List ItemId} {d : Decompilation}
    (h : ∀ id ∈ ids, (d.graph.item id).opcode? ≠ some .calli ∧ (d.graph.item id).leadsTo? = none) :
    ids.forM resolveTarget d = .ok () d := by
  induction ids with
  | nil => rfl
  | cons id rest ih =>
    obtain ⟨hopcode, hleads⟩ := h id List.mem_cons_self
    rw [forM_cons_of_ok (resolveTarget_quiet hopcode hleads)]
    exact ih fun other hother => h other (List.mem_cons_of_mem _ hother)

end Pass

/-! ## Search for patterns -/

namespace Graph

theorem scanPattern_skip {pattern : List Opcode} {entries rest : List (ItemId × Option Opcode)}
    (h : ∀ entry ∈ entries, entry.2 ≠ pattern.head?) :
    scanPattern pattern 0 none (entries ++ rest) = scanPattern pattern 0 none rest := by
  induction entries with
  | nil => rfl
  | cons entry entries ih =>
    obtain ⟨id, opcode⟩ := entry
    have hne : opcode ≠ pattern.head? := h _ List.mem_cons_self
    have hfirst : pattern[0]? = pattern.head? := List.head?_eq_getElem?.symm
    rw [List.cons_append, scanPattern]
    simp only [hfirst, beq_false_of_ne hne, Bool.and_false]
    exact ih fun other hother => h other (List.mem_cons_of_mem _ hother)

/-- A pattern is not found among fewer instructions than it has. -/
theorem scanPattern_short {pattern : List Opcode} {matched : Nat} {found : Option ItemId}
    {entries : List (ItemId × Option Opcode)} (h : matched + entries.length < pattern.length) :
    scanPattern pattern matched found entries = none := by
  induction entries generalizing matched found with
  | nil => rfl
  | cons entry entries ih =>
    obtain ⟨id, opcode⟩ := entry
    rw [List.length_cons] at h
    have hnext : matched + 1 ≠ pattern.length := by omega
    rw [scanPattern]
    simp only [if_neg hnext]
    split
    · exact ih (by omega)
    · split
      · exact ih (by omega)
      · exact ih (by omega)

/-- The items of a block that starts at `site` are replaced by a boundary. -/
theorem replaced_addBoundary {g : Graph} (hg : g.Ordered) {front block rest : List ItemId}
    {site : ItemId} (horder : g.order = front ++ (site :: block ++ rest))
    (hopcodes : ∀ id ∈ site :: block, (g.item id).isOpcodeItem = true) (boundary : Item)
    (hpos : boundary.pos = (g.item site).pos) (hopen : boundary.processed = false) :
    Replaced g (Decompilation.addBoundary g site (site :: block).length boundary) site
      (site :: block) boundary.kind := by
  have hnodup := hg.nodup
  rw [horder, List.nodup_append, List.cons_append] at hnodup
  have hnot : site ∉ front := fun hmem => hnodup.2.2 site hmem site List.mem_cons_self rfl
  have hlt : ∀ id ∈ site :: block, id < g.size := by
    intro id hid
    refine hg.lt_of_mem ?_
    rw [horder]
    exact List.mem_append_right _ (List.mem_append_left _ hid)
  have hsize : site < g.size := hlt site List.mem_cons_self
  have hinserted := inserted_insertBefore hsize boundary hpos hopen
  have hkeep : ∀ id ∈ site :: block, (g.insertBefore site boundary).item id = g.item id :=
    fun id hid => hinserted.items id (Nat.ne_of_lt (hlt id hid))
  have hstarting : (g.insertBefore site boundary).startingAt site = site :: block ++ rest := by
    have horder' : (g.insertBefore site boundary).order =
        (front ++ [g.size]) ++ site :: (block ++ rest) := by
      rw [order_insertBefore, horder, List.cons_append, placeBefore_split hnot, List.append_assoc]
      rfl
    refine startingAt_split horder' ?_
    rw [List.mem_append, not_or, List.mem_singleton]
    exact ⟨hnot, Nat.ne_of_lt hsize⟩
  have hids : (((g.insertBefore site boundary).startingAt site).filter fun id =>
      ((g.insertBefore site boundary).item id).isOpcodeItem).take (site :: block).length =
        site :: block := by
    rw [hstarting, List.filter_append, List.filter_eq_self.2, List.take_left]
    intro id hid
    rw [hkeep id hid]
    exact hopcodes id hid
  have hmarks := sameBut_markAll (site :: block) (g.insertBefore site boundary)
  have hgone : ∀ id ∈ site :: block,
      ((g.insertBefore site boundary).modifyAll (site :: block) Item.markProcessed).face? id =
        none := by
    intro id hid
    refine face?_modifyAll_markProcessed hid ?_ ?_
    · rw [size_insertBefore]
      exact Nat.lt_succ_of_lt (hlt id hid)
    · rw [hkeep id hid]
      have hop := hopcodes id hid
      unfold Item.isOpcodeItem Item.opcodeItem? at hop
      unfold Item.statement?
      split at hop
      · rename_i heq
        rw [heq]
      · cases hop
  unfold Decompilation.addBoundary markOpcodes
  simp only [hids]
  exact Replaced.intro hg (fun hmem => Nat.lt_irrefl _ (hlt _ hmem)) (SameBut.refl _ _) hinserted
    hmarks hgone

end Graph

/-! ## What holds of every item -/

namespace Graph

/-- All items have a property. -/
def Every (p : Item → Prop) (g : Graph) : Prop := ∀ id, p (g.item id)

section Every

variable {p : Item → Prop} {g : Graph}

theorem Every.modify (h : g.Every p) {f : Item → Item} (hf : ∀ item, p item → p (f item))
    (id : ItemId) : (g.modify id f).Every p := by
  intro other
  rw [item_modify]
  split
  · exact hf _ (h id)
  · exact h other

theorem Every.modifyAll {f : Item → Item} (hf : ∀ item, p item → p (f item)) (ids : List ItemId)
    {g : Graph} (h : g.Every p) : (g.modifyAll ids f).Every p := by
  induction ids generalizing g with
  | nil => exact h
  | cons id rest ih => exact ih (h.modify hf id)

theorem Every.insertBefore (h : g.Every p) (site : ItemId) {item : Item} (hitem : p item) :
    (g.insertBefore site item).Every p := by
  intro id
  by_cases hid : id = g.size
  · rw [hid, item_insertBefore_new]
    exact hitem
  · rw [item_insertBefore_of_ne hid]
    exact h id

theorem Every.addBoundary (hmark : ∀ item, p item → p item.markProcessed) (h : g.Every p)
    (site : ItemId) (count : Nat) {boundary : Item} (hboundary : p boundary) :
    (Decompilation.addBoundary g site count boundary).Every p :=
  Every.modifyAll hmark _ (h.insertBefore site hboundary)

end Every

end Graph

namespace Source

open Fallible

/-! ## Quiet code -/

/-- Whether an opcode leads nowhere and names nothing. -/
def isQuiet (opcode : Opcode) : Bool :=
  !opcode.opcodeClass.hasCodeTarget && opcode ≠ .calli

theorem isQuiet_of_isStraight {opcode : Opcode} (h : isStraight opcode = true) :
    isQuiet opcode = true := by
  cases opcode <;> first | rfl | exact absurd h (by decide)

theorem quiet_functionCode (locals : UInt16) (body : List Stmt) :
    ∀ i ∈ functionCode locals body, isQuiet i.opcode = true :=
  forall_mem_functionCode (by simp [prologueCode, isQuiet, Opcode.opcodeClass, OpcodeClass.hasCodeTarget])
    (fun i hi => isQuiet_of_isStraight (straight_bodyCode body i hi).1)
    (by simp [epilogueCode, isQuiet, Opcode.opcodeClass, OpcodeClass.hasCodeTarget])

theorem jumpTarget?_of_quiet {instruction : Instruction} (h : isQuiet instruction.opcode = true)
    (pos : UInt16) : instruction.jumpTarget? pos = none := by
  obtain ⟨opcode, operand⟩ := instruction
  cases operand with
  | none => rfl
  | some operand => cases opcode <;> first | rfl | cases h

theorem leadsTo?_of_quiet {g : Graph} {id : ItemId} {instruction : Instruction}
    (hface : g.face? id = some (false, rawKind instruction))
    (h : isQuiet instruction.opcode = true) : (g.item id).leadsTo? = none := by
  have htarget := jumpTarget?_of_quiet h (g.item id).pos
  simp only [Item.leadsTo?, opcodeItem?_of_raw hface, Option.bind_some, htarget]
  rfl

theorem opcodesOf_raws {g : Graph} {ids : List ItemId} {code : List Instruction}
    (h : Raws g ids code) : g.opcodesOf ids = ids.zip (code.map fun i => some i.opcode) := by
  induction ids generalizing code with
  | nil => rfl
  | cons id rest ih =>
    cases code with
    | nil => simp [Raws] at h
    | cons instruction code =>
      obtain ⟨hface, hrest⟩ := raws_cons.1 h
      rw [List.map_cons, List.zip_cons_cons, ← ih hrest]
      exact List.filterMap_cons_some (by rw [opcodeItem?_of_raw hface]; rfl)

/-! ## References of a straight-line function -/

/-- The listing with its first instruction labelled as the start. -/
def labelStart (g : Graph) (first : ItemId) : Graph :=
  g.modify first fun item => { item with label := some startFunction, xrefCount := 1 }

theorem sameBut_labelStart (g : Graph) (first : ItemId) :
    Graph.SameBut [] g (labelStart g first) :=
  Graph.sameBut_modify_label [] g first fun _ => ⟨rfl, rfl, rfl⟩

/-- Collecting references labels the first instruction and does nothing else. -/
theorem collectReferences_quiet {d : Decompilation} {first : ItemId} {rest : List ItemId}
    {code : List Instruction} (horder : d.graph.order = first :: rest)
    (hraws : Raws d.graph d.graph.order code) (hquiet : ∀ i ∈ code, isQuiet i.opcode = true) :
    Pass.collectReferences d = .ok () (d.onGraph (labelStart · first)) := by
  have hfirst : d.graph.first? = some first := by rw [Graph.first?, horder]; rfl
  have hlabel : Pass.onGraph (labelStart · first) d = .ok () (d.onGraph (labelStart · first)) := rfl
  unfold Pass.collectReferences
  rw [bind_of_ok (get_apply d)]
  simp only [hfirst]
  refine (bind_of_ok hlabel).trans (Pass.forM_resolveTarget_quiet fun id hid => ?_)
  obtain ⟨instruction, hi, hface⟩ := hraws.exists_instruction hid
  have hface' : (labelStart d.graph first).face? id = some (false, rawKind instruction) :=
    ((sameBut_labelStart d.graph first).faces id (List.not_mem_nil)).trans hface
  have hopcode := hquiet instruction hi
  refine ⟨?_, leadsTo?_of_quiet hface' hopcode⟩
  change ((labelStart d.graph first).item id).opcode? ≠ _
  rw [opcode?_of_raw hface']
  intro heq
  rw [Option.some.inj heq] at hopcode
  exact absurd hopcode (by decide)

/-! ## The only function -/

/-- The parts of the listing of a straight-line function. -/
structure Parts (g : Graph) (locals : UInt16) (body : List Stmt) (entry : ItemId)
    (front middle : List ItemId) (exit : ItemId) (behind : List ItemId) : Prop where
  ordered : g.Ordered
  order : g.order = (entry :: front) ++ (middle ++ exit :: behind)
  opening : Raws g (entry :: front) (prologueCode locals)
  inside : Raws g middle (bodyCode body)
  closing : Raws g (exit :: behind) epilogueCode

theorem exists_parts {g : Graph} (hg : g.Ordered) {locals : UInt16} {body : List Stmt}
    (h : Raws g g.order (functionCode locals body)) :
    ∃ entry front middle exit behind, Parts g locals body entry front middle exit behind := by
  obtain ⟨first, others, horder, hfirst, hothers⟩ := h.split
  obtain ⟨middle, last, rfl, hmiddle, hlast⟩ := hothers.split
  cases first with
  | nil => simp [Raws, prologueCode] at hfirst
  | cons entry front =>
    cases last with
    | nil => simp [Raws, epilogueCode] at hlast
    | cons exit behind =>
      exact ⟨entry, front, middle, exit, behind, hg, horder, hfirst, hmiddle, hlast⟩

namespace Parts

variable {g : Graph} {locals : UInt16} {body : List Stmt} {entry exit : ItemId}
  {front middle behind : List ItemId}

theorem sameBut (h : Parts g locals body entry front middle exit behind) {g' : Graph}
    (hg : Graph.SameBut [] g g') : Parts g' locals body entry front middle exit behind := by
  have hfaces : ∀ ids : List ItemId, ∀ id ∈ ids, g'.face? id = g.face? id :=
    fun _ id _ => hg.faces id List.not_mem_nil
  exact ⟨hg.ordered h.ordered, hg.order.trans h.order, h.opening.congr (hfaces _),
    h.inside.congr (hfaces _), h.closing.congr (hfaces _)⟩

theorem lt_size (h : Parts g locals body entry front middle exit behind) {id : Nat}
    (hid : id ∈ (entry :: front) ++ (middle ++ exit :: behind)) : id < g.size := by
  refine h.ordered.lt_of_mem ?_
  rw [h.order]
  exact hid

theorem nodup (h : Parts g locals body entry front middle exit behind) :
    ((entry :: front) ++ (middle ++ exit :: behind)).Nodup := by
  rw [← h.order]
  exact h.ordered.nodup

/-- The prologue is met first. -/
theorem find_prologue (h : Parts g locals body entry front middle exit behind) :
    g.findPattern? g.first? none prologue = some entry := by
  have hfirst : g.first? = some entry := by rw [Graph.first?, h.order]; rfl
  have hstarting : g.startingAt entry = g.order := by
    rw [Graph.startingAt_head h.order, h.order]
    rfl
  have hprologue := opcodesOf_raws h.opening
  have hlength := h.opening.length
  obtain ⟨p₁, p₂, p₃, rfl⟩ : ∃ p₁ p₂ p₃, front = [p₁, p₂, p₃] :=
    List.length_eq_three.1 (Nat.succ.inj hlength)
  rw [hfirst, Graph.findPattern?_from, hstarting, h.order, Graph.opcodesOf, List.filterMap_append]
  unfold Graph.opcodesOf at hprologue
  rw [hprologue]
  rfl

/-- The epilogue is not met before the end. -/
theorem find_epilogue (h : Parts g locals body entry front middle exit behind) :
    g.findPattern? (g.next? entry) none epilogue = some exit := by
  have hlength := h.opening.length
  obtain ⟨p₁, p₂, p₃, rfl⟩ : ∃ p₁ p₂ p₃, front = [p₁, p₂, p₃] :=
    List.length_eq_three.1 (Nat.succ.inj hlength)
  have hnext : g.next? entry = some p₁ := Graph.next?_head h.order
  have hnot : p₁ ∉ [entry] := by
    intro hmem
    have hnodup := h.nodup
    rw [List.mem_singleton.1 hmem] at hnodup
    simp at hnodup
  have hstarting : g.startingAt p₁ = [p₁, p₂, p₃] ++ (middle ++ exit :: behind) :=
    Graph.startingAt_split (show g.order = [entry] ++ p₁ :: _ from h.order) hnot
  have hfront := opcodesOf_raws (raws_cons.1 h.opening).2
  have hmiddle := opcodesOf_raws h.inside
  have hexit := opcodesOf_raws h.closing
  obtain ⟨e₁, e₂, rfl⟩ : ∃ e₁ e₂, behind = [e₁, e₂] :=
    List.length_eq_two.1 (Nat.succ.inj h.closing.length)
  unfold Graph.opcodesOf at hfront hmiddle hexit
  rw [hnext, Graph.findPattern?_from, hstarting, Graph.opcodesOf, List.filterMap_append,
    List.filterMap_append, hfront, hmiddle, hexit, Graph.scanPattern_skip, Graph.scanPattern_skip]
  · rfl
  · intro item hitem hopcode
    obtain ⟨i, hi, heq⟩ := List.mem_map.1 (List.of_mem_zip hitem).2
    have hstop : i.opcode = .bpToSp := Option.some.inj (heq.trans hopcode)
    have hstraight := (straight_bodyCode body i hi).1
    rw [hstop] at hstraight
    exact absurd hstraight (by decide)
  · intro item hitem hopcode
    have hmem := (List.of_mem_zip hitem).2
    rw [hopcode] at hmem
    simp [epilogue] at hmem

theorem nextFunction? (h : Parts g locals body entry front middle exit behind) :
    Decompilation.nextFunction? g g.first? = some (entry, exit) := by
  simp [Decompilation.nextFunction?, h.find_prologue, h.find_epilogue]

end Parts

/-! ## Boundaries -/

/-- The listing with a boundary before its first prologue. -/
def openFunction (g : Graph) (entry : ItemId) : Graph :=
  let cleared := (g.modify entry Item.withoutLabel).modify entry Item.withoutLabel
  Decompilation.addBoundary cleared entry prologue.length
    (Decompilation.startBoundary cleared entry startFunction 1)

/-- The listing with a boundary before its epilogue. -/
def closeFunction (g : Graph) (exit : ItemId) : Graph :=
  Decompilation.addBoundary (g.modify exit Item.withoutLabel) exit epilogue.length
    (Decompilation.endBoundary g exit)

/-- The item is no call of a function of the conversation. -/
def NoCall (item : Item) : Prop := item.isOpcode .call = false

theorem noCall_openFunction {g : Graph} (h : g.Every NoCall) (entry : ItemId) :
    (openFunction g entry).Every NoCall := by
  have hclear : ∀ item, NoCall item → NoCall item.withoutLabel := fun _ hitem => hitem
  unfold openFunction
  refine Graph.Every.addBoundary ?_ ((h.modify hclear entry).modify hclear entry) _ _ ?_
  · exact fun _ hitem => hitem
  · exact rfl

theorem noCall_closeFunction {g : Graph} (h : g.Every NoCall) (exit : ItemId) :
    (closeFunction g exit).Every NoCall := by
  unfold closeFunction
  refine Graph.Every.addBoundary ?_ (h.modify ?_ exit) _ _ ?_
  · exact fun _ hitem => hitem
  · exact fun _ hitem => hitem
  · exact rfl

theorem noCall_of_raws {g : Graph} (hg : g.Ordered) {code : List Instruction}
    (hraws : Raws g g.order code) (hquiet : ∀ i ∈ code, isQuiet i.opcode = true) :
    g.Every NoCall := by
  intro id
  by_cases hid : id ∈ g.order
  · obtain ⟨instruction, hi, hface⟩ := hraws.exists_instruction hid
    have hopcode := hquiet instruction hi
    rw [NoCall, isOpcode_of_raw hface, decide_eq_false_iff_not]
    intro hcall
    rw [hcall] at hopcode
    exact absurd hopcode (by decide)
  · have hsize : g.items.size ≤ id := Nat.le_of_not_lt fun hlt => hid ((hg.mem_order id).2 hlt)
    have hdefault : g.item id = default := by
      rw [Graph.item, Array.getD_eq_getD_getElem?, Array.getElem?_eq_none hsize]
      rfl
    rw [hdefault]
    exact rfl

theorem noCall_labelStart {g : Graph} (h : g.Every NoCall) (first : ItemId) :
    (labelStart g first).Every NoCall := by
  unfold labelStart
  refine h.modify ?_ first
  exact fun _ hitem => hitem

theorem pos_labelStart (g : Graph) (first id : ItemId) :
    ((labelStart g first).item id).pos = (g.item id).pos := by
  unfold labelStart
  refine Graph.modify_keeps (p := Item.pos) ?_ g first id
  exact fun _ => rfl

theorem isOpcodeItem_of_raws {g : Graph} {ids : List ItemId} {code : List Instruction}
    (h : Raws g ids code) : ∀ id ∈ ids, (g.item id).isOpcodeItem = true := by
  intro id hid
  obtain ⟨instruction, -, hface⟩ := h.exists_instruction hid
  rw [Item.isOpcodeItem, opcodeItem?_of_raw hface]
  rfl

theorem pos_withoutLabel (item : Item) : item.withoutLabel.pos = item.pos := rfl

theorem sameBut_withoutLabel (g : Graph) (id : ItemId) :
    Graph.SameBut [] g (g.modify id Item.withoutLabel) :=
  Graph.sameBut_modify_label [] g id fun _ => ⟨rfl, rfl, rfl⟩

/-- A boundary takes the place of items when labels have been taken away before. -/
theorem replaced_of_cleared {g cleared g' : Graph} {site : ItemId} {ids : List ItemId} {kind : ItemKind}
    (hg : g.Ordered) (hclear : Graph.SameBut [] g cleared) (hids : ∀ id ∈ ids, id ∈ g.order)
    (h : Graph.Replaced cleared g' site ids kind) : Graph.Replaced g g' site ids kind := by
  have hfaces : Graph.SameBut ids g cleared := ⟨hclear.order, hclear.size, hclear.ordered,
    fun id _ => hclear.faces id List.not_mem_nil⟩
  exact h.widen hfaces (Graph.SameBut.refl _ _) (fun _ hid => hid)
    (fun hmem => hg.ne_size_of_mem (hids _ hmem) rfl) h.gone

section Boundaries

variable {g : Graph} {locals : UInt16} {body : List Stmt} {entry exit : ItemId}
  {front middle behind : List ItemId}

/-- The prologue is replaced by the front boundary. -/
theorem replaced_openFunction (h : Parts g locals body entry front middle exit behind) :
    Graph.Replaced g (openFunction g entry) entry (entry :: front) .functionStart := by
  have hclear := (sameBut_withoutLabel g entry).trans (sameBut_withoutLabel _ entry)
  have hparts := h.sameBut hclear
  have horder : _ = [] ++ (entry :: front ++ (middle ++ exit :: behind)) := hparts.order
  have hreplaced := Graph.replaced_addBoundary hparts.ordered horder
    (isOpcodeItem_of_raws hparts.opening) (Decompilation.startBoundary _ entry startFunction 1) rfl
    rfl
  have hlength : (entry :: front).length = prologue.length := h.opening.length
  rw [hlength] at hreplaced
  refine replaced_of_cleared h.ordered hclear (fun id hid => ?_) hreplaced
  rw [h.order]
  exact List.mem_append_left _ hid

/-- The epilogue is replaced by the end boundary. -/
theorem replaced_closeFunction {before : List ItemId} (hg : g.Ordered)
    (horder : g.order = before ++ exit :: behind) (hclosing : Raws g (exit :: behind) epilogueCode) :
    Graph.Replaced g (closeFunction g exit) exit (exit :: behind) .functionEnd := by
  have hclear := sameBut_withoutLabel g exit
  have hraws : Raws (g.modify exit Item.withoutLabel) (exit :: behind) epilogueCode :=
    hclosing.congr fun id _ => hclear.faces id List.not_mem_nil
  have hpos : (Decompilation.endBoundary g exit).pos =
      ((g.modify exit Item.withoutLabel).item exit).pos :=
    (Graph.modify_keeps (p := Item.pos) pos_withoutLabel g exit exit).symm
  have hlist : (g.modify exit Item.withoutLabel).order = before ++ (exit :: behind ++ []) := by
    rw [hclear.order, List.append_nil]
    exact horder
  have hreplaced := Graph.replaced_addBoundary (hclear.ordered hg) hlist
    (isOpcodeItem_of_raws hraws) _ hpos rfl
  have hlength : (exit :: behind).length = epilogue.length := hraws.length
  rw [hlength] at hreplaced
  refine replaced_of_cleared hg hclear (fun id hid => ?_) hreplaced
  rw [horder]
  exact List.mem_append_right _ hid

/-- The listing of a function between its boundaries. -/
def functionScene (g : Graph) (entry exit : ItemId) (behind : List ItemId) (names : Names) : Scene :=
  ⟨g.size, (openFunction g entry).size, exit :: behind, names⟩

theorem layout_functionScene (h : Parts g locals body entry front middle exit behind)
    (names : Names) :
    Layout (functionScene g entry exit behind names) (closeFunction (openFunction g entry) exit)
        ((entry :: front) ++ middle) ∧
      (∀ id ∈ entry :: front,
        (closeFunction (openFunction g entry) exit).face? id = none) ∧
      Raws (closeFunction (openFunction g entry) exit) middle (bodyCode body) := by
  have hopen := replaced_openFunction h
  have hnodup := h.nodup
  rw [List.nodup_append, List.nodup_append] at hnodup
  obtain ⟨-, ⟨-, -, hmiddle⟩, hfront⟩ := hnodup
  have hsize : ∀ id ∈ (entry :: front) ++ (middle ++ exit :: behind), id ≠ g.size := by
    rw [← h.order]
    exact fun id hid => h.ordered.ne_size_of_mem hid
  have horder : (openFunction g entry).order =
      (g.size :: ((entry :: front) ++ middle)) ++ exit :: behind := by
    rw [hopen.order, h.order, List.cons_append, Graph.placeBefore, if_pos rfl]
    simp
  have hsize' : ∀ id ∈ (g.size :: ((entry :: front) ++ middle)) ++ exit :: behind,
      id ≠ (openFunction g entry).size := by
    rw [← horder]
    exact fun id hid => hopen.ordered.ne_size_of_mem hid
  have hkept : ∀ id ∈ middle ++ exit :: behind,
      (openFunction g entry).face? id = g.face? id := fun id hid =>
    hopen.kept id (fun hmem => hfront id hmem id hid rfl) (hsize id (List.mem_append_right _ hid))
  have hclose := replaced_closeFunction hopen.ordered horder
    (h.closing.congr fun id hid => hkept id (List.mem_append_right _ hid))
  have hstay : ∀ id ∈ g.size :: ((entry :: front) ++ middle), id ∉ exit :: behind := by
    intro id hid hmem
    rcases List.mem_cons.1 hid with rfl | hid
    · exact hsize _ (List.mem_append_right _ (List.mem_append_right _ hmem)) rfl
    · rcases List.mem_append.1 hid with hid | hid
      · exact hfront id hid id (List.mem_append_right _ hmem) rfl
      · exact hmiddle id hid id hmem rfl
  have hfaces : ∀ id ∈ g.size :: ((entry :: front) ++ middle),
      (closeFunction (openFunction g entry) exit).face? id = (openFunction g entry).face? id :=
    fun id hid => hclose.kept id (hstay id hid) (hsize' id (List.mem_append_left _ hid))
  refine ⟨⟨hclose.ordered, ?_, ?_, hclose.new, hclose.gone⟩, fun id hid => ?_, ?_⟩
  · rw [hclose.order, horder, Graph.placeBefore_split fun hmem =>
      hstay exit hmem List.mem_cons_self]
    simp [functionScene]
  · exact (hfaces _ List.mem_cons_self).trans hopen.new
  · rw [hfaces id (List.mem_cons_of_mem _ (List.mem_append_left _ hid))]
    exact hopen.gone id hid
  · refine h.inside.congr fun id hid => ?_
    rw [hfaces id (List.mem_cons_of_mem _ (List.mem_append_right _ hid))]
    exact hkept id (List.mem_append_left _ hid)

end Boundaries

/-! ## Discovery -/

section Discovery

variable {d : Decompilation} {locals : UInt16} {body : List Stmt} {entry exit : ItemId}
  {front middle behind : List ItemId}

theorem addFunction_straight (h : Parts d.graph locals body entry front middle exit behind)
    (hpos : (d.graph.item entry).pos = 0) :
    ∃ info, d.addFunction entry exit = { d with
        graph := closeFunction (openFunction d.graph entry) exit
        functions := d.functions.push info } ∧
      info.startItem = d.graph.size ∧ info.endItem = (openFunction d.graph entry).size ∧
      info.name = startFunction := by
  have hstart : Decompilation.startInstruction? d.graph entry = none := by
    have hprev : d.graph.prev? entry = none := Graph.prev?_head h.order
    rw [Decompilation.startInstruction?, hprev]
    rfl
  have hname : Decompilation.nameFunction d.options (d.graph.item entry).pos
      (d.graph.item entry).label = startFunction := by
    rw [hpos]
    rfl
  unfold Decompilation.addFunction
  simp only [hstart, hname]
  rw [hpos]
  refine ⟨_, rfl, ?_, rfl, rfl⟩
  simp

/-- The function is discovered, and no other. -/
theorem discoverFunctions_straight
    (h : Parts d.graph locals body entry front middle exit behind)
    (hpos : (d.graph.item entry).pos = 0) :
    d.discoverFunctions = d.addFunction entry exit := by
  obtain ⟨info, hadd, -, -, -⟩ := addFunction_straight h hpos
  obtain ⟨hlayout, -, -⟩ := layout_functionScene h (Names.mk .empty [])
  obtain ⟨e₁, e₂, rfl⟩ : ∃ e₁ e₂, behind = [e₁, e₂] :=
    List.length_eq_two.1 (Nat.succ.inj h.closing.length)
  obtain ⟨fuel, hfuel⟩ : ∃ fuel, d.graph.size = fuel + 2 := by
    have hentry : entry < d.graph.size := h.lt_size List.mem_cons_self
    have hexit : exit < d.graph.size :=
      h.lt_size (List.mem_cons_of_mem _ (List.mem_append_right _ (List.mem_append_right _
        List.mem_cons_self)))
    have hne : entry ≠ exit := fun he =>
      (List.nodup_append.1 h.nodup).2.2 entry List.mem_cons_self entry
        (List.mem_append_right _ (he ▸ List.mem_cons_self)) rfl
    have htwo : ∀ {a b n : Nat}, a < n → b < n → a ≠ b → ∃ fuel, n = fuel + 2 :=
      fun {_ _ n} _ _ _ => ⟨n - 2, by omega⟩
    exact htwo hentry hexit hne
  have hnext : d.graph.next? exit = some e₁ := by
    have horder : d.graph.order = ((entry :: front) ++ middle) ++ exit :: [e₁, e₂] := by
      rw [h.order, List.append_assoc]
    refine Graph.next?_split horder (h.ordered.notMem_front horder)
  have hnone : Decompilation.nextFunction? (d.addFunction entry exit).graph (some e₁) = none := by
    rw [hadd, Decompilation.nextFunction?]
    have horder : (closeFunction (openFunction d.graph entry) exit).order =
        (d.graph.size :: ((entry :: front) ++ middle) ++ [(openFunction d.graph entry).size, exit]) ++
          e₁ :: [e₂] := by
      rw [hlayout.order]
      simp [functionScene]
    have hstarting := Graph.startingAt_split horder (hlayout.ordered.notMem_front horder)
    rw [Graph.findPattern?_from, hstarting, Graph.scanPattern_short]
    · rfl
    · have hlength := List.length_filterMap_le (fun id =>
        ((closeFunction (openFunction d.graph entry) exit).item id).opcodeItem?.map
          fun op => (id, op.opcode)) [e₁, e₂]
      exact Nat.lt_of_le_of_lt (Nat.add_le_add_left hlength 0) (by simp [prologue])
  rw [Decompilation.discoverFunctions, hfuel, Decompilation.discoverFrom, h.nextFunction?]
  simp only [hnext]
  rw [Decompilation.discoverFrom, hnone]

/-- Where nothing is called, there is nothing to name. -/
theorem relabelCalls_quiet (h : d.graph.Every NoCall) :
    d.relabelCalls = d := by
  have hstep : ∀ id, d.relabelCall id = d := by
    intro id
    unfold Decompilation.relabelCall
    have hcall : (d.graph.item id).isOpcode .call = false := h id
    simp only [hcall]
    cases (d.graph.item id).opcodeItem?.bind (·.operand) <;> rfl
  have hfold : ∀ ids : List ItemId, ids.foldl Decompilation.relabelCall d = d := by
    intro ids
    induction ids with
    | nil => rfl
    | cons id rest ih => rw [List.foldl_cons, hstep, ih]
  exact hfold _

/-- The front and the end of the function are found, and its body is as it was. -/
theorem discover_straight (h : Parts d.graph locals body entry front middle exit behind)
    (hpos : (d.graph.item entry).pos = 0) (hfunctions : d.functions = #[]) {names : Names}
    (hglobals : d.importedGlobals = names.globals) (hstrings : d.strings = names.strings.toArray)
    (hcalls : d.graph.Every NoCall) :
    ∃ scene, scene.names = names ∧ scene.behind ≠ [] ∧
      Progress scene d.discoverFunctions.relabelCalls [] (entry :: front) middle (bodyCode body) ∧
      ∀ id ∈ entry :: front, d.discoverFunctions.relabelCalls.graph.face? id = none := by
  obtain ⟨info, hadd, hstart, hstop, hname⟩ := addFunction_straight h hpos
  obtain ⟨hlayout, hgone, hraws⟩ := layout_functionScene h names
  have hquiet : Graph.Every NoCall (closeFunction (openFunction d.graph entry) exit) :=
    noCall_closeFunction (noCall_openFunction hcalls entry) exit
  have hrelabel : d.discoverFunctions.relabelCalls = { d with
      graph := closeFunction (openFunction d.graph entry) exit
      functions := d.functions.push info } := by
    rw [discoverFunctions_straight h hpos, hadd]
    exact relabelCalls_quiet hquiet
  rw [hrelabel]
  generalize closeFunction (openFunction d.graph entry) exit = closed at hlayout hgone hraws ⊢
  have hsetting : Setting (functionScene d.graph entry exit behind names)
      { d with graph := closed, functions := d.functions.push info } := by
    refine ⟨⟨info, ?_, hstart, hstop, hname⟩, hglobals, hstrings⟩
    rw [hfunctions]
    rfl
  have hstraight : ∀ i ∈ bodyCode body, isStraight i.opcode = true :=
    fun i hi => (straight_bodyCode body i hi).1
  exact ⟨_, rfl, List.cons_ne_nil _ _,
    ⟨⟨hlayout, hsetting, hraws, hstraight⟩, Graph.shown_eq_nil hgone,
      fun _ hentry => absurd hentry List.not_mem_nil⟩, hgone⟩

end Discovery

end Source

end Parley
