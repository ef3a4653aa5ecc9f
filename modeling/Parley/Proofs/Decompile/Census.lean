import Parley.Proofs.Decompile.CrossReference
import Parley.Proofs.Listing.Precedence
import Parley.Proofs.Listing.Sweep
import Parley.Proofs.Listing.Walk
import Parley.Proofs.Text.Numeral
set_option autoImplicit false

/-!
# The references of a listing are counted

Disassembly goes through the instructions once.  It stops at the first that leads to no instruction or names no
imported function; if there is none, every place that something leads to has a label of its own, every item the
number of those that lead to it, and every jump the label and the position of its target.
-/

namespace Parley

namespace Item

/-- The label of where an instruction leads. -/
def targetLabel? (item : Item) : Option String := item.opcodeItem?.bind (·.targetLabel)

theorem targetLabel?_withTarget {item : Item} (h : item.isOpcodeItem = true) (label : Option String)
    (pos : Option UInt16) : (item.withTarget label pos).targetLabel? = label := by
  obtain ⟨op, hop⟩ := Option.isSome_iff_exists.1 h
  rw [targetLabel?, opcodeItem?_withTarget, hop]
  rfl

theorem targetPos?_withTarget {item : Item} (h : item.isOpcodeItem = true) (label : Option String)
    (pos : Option UInt16) : (item.withTarget label pos).targetPos? = pos := by
  obtain ⟨op, hop⟩ := Option.isSome_iff_exists.1 h
  rw [targetPos?, opcodeItem?_withTarget, hop]
  rfl

theorem xrefCount_withTarget (item : Item) (label : Option String) (pos : Option UInt16) :
    (item.withTarget label pos).xrefCount = item.xrefCount := by
  obtain ⟨_, _, _, _, kind⟩ := item
  cases kind <;> rfl

theorem isOpcodeItem_of_leadsTo? {item : Item} {target : UInt16} (h : item.leadsTo? = some target) :
    item.isOpcodeItem = true := by
  obtain ⟨op, hop, -⟩ := Option.bind_eq_some_iff.1 h
  rw [isOpcodeItem, hop]
  rfl

theorem leadsTo?_of_calli {item : Item} (h : item.opcode? = some .calli) : item.leadsTo? = none := by
  cases hleads : item.leadsTo? with
  | none => rfl
  | some target => exact absurd h (opcode?_ne_calli_of_leadsTo? hleads)

end Item

namespace Graph

/-- The number of items among `ids` that lead to a position. -/
def references (g : Graph) (ids : List ItemId) (pos : UInt16) : Nat :=
  ids.countP fun id => (g.item id).leadsTo? = some pos

/-- What a place is labelled, if anything leads to it. -/
def placeName (g : Graph) (id : ItemId) : String :=
  if g.first? = some id then startFunction else labelName (g.item id).pos

/-- Where the items stand is a matter of the code. -/
theorem Ordered.of_codeView_eq {g g' : Graph} (hg : g.Ordered) (h : g'.codeView = g.codeView) :
    g'.Ordered := by
  have hpos (id : ItemId) : (g'.item id).pos = (g.item id).pos :=
    congrArg Prod.fst (code_of_codeView_eq h id)
  have horder := order_of_codeView_eq h
  refine ⟨horder ▸ hg.nodup, fun id => ?_, ?_, fun pos => ?_⟩
  · rw [horder, size_of_codeView_eq h]
    exact hg.mem_order id
  · rw [horder]
    simpa only [hpos] using hg.sorted
  · rw [findPos?_of_codeView_eq h, horder]
    simpa only [hpos] using hg.findPos pos

/-- Whether something stands at a position. -/
theorem Ordered.isSome_findPos?_eq_any {g : Graph} (hg : g.Ordered) (pos : UInt16) :
    (g.findPos? pos).isSome = g.order.any fun site => (g.item site).pos = pos := by
  rw [hg.findPos, List.isSome_find?]

theorem references_concat (g : Graph) (ids : List ItemId) (id : ItemId) (pos : UInt16) :
    g.references (ids ++ [id]) pos =
      g.references ids pos + if (g.item id).leadsTo? = some pos then 1 else 0 := by
  rw [references, List.countP_append, List.countP_singleton, references]
  simp only [decide_eq_true_eq]

theorem references_congr {g g' : Graph} (h : g'.codeView = g.codeView) (ids : List ItemId)
    (pos : UInt16) : g'.references ids pos = g.references ids pos := by
  refine List.countP_congr fun id _ => ?_
  rw [Item.leadsTo?_congr (code_of_codeView_eq h id)]

/-- What leads to one of two places is counted at both. -/
theorem references_add {g : Graph} {pos pos' : UInt16} (ids : List ItemId) (hne : pos ≠ pos') :
    g.references ids pos + g.references ids pos' = ids.countP fun id =>
      (g.item id).leadsTo? = some pos ∨ (g.item id).leadsTo? = some pos' := by
  unfold references
  induction ids with
  | nil => rfl
  | cons id rest ih =>
    simp only [List.countP_cons, ← ih]
    by_cases hpos : (g.item id).leadsTo? = some pos
    · have hpos' : (g.item id).leadsTo? ≠ some pos' := by
        rw [hpos]
        exact fun h => hne (Option.some.inj h)
      simp [hpos, hne]
      omega
    · simp [hpos]
      omega

/-- Items stand at different positions. -/
def Single (g : Graph) : Prop := ∀ a < g.size, ∀ b < g.size, (g.item a).pos = (g.item b).pos → a = b

theorem single_ofCode (code : CodeWords) : (ofCode code).Single := by
  have hordered := ofCode_ordered code
  have hlt {a b : ItemId} (hab : Precedes (ofCode code).order a b) :
      ((ofCode code).item a).pos < ((ofCode code).item b).pos :=
    List.pairwise_iff_forall_sublist.1 (pairwise_order_ofItems (pairwise_codeItems code)) hab
  intro a ha b hb hpos
  by_contra hne
  rcases hordered.precedes_or ha hb hne with hab | hba
  · exact UInt16.lt_irrefl _ (hpos ▸ hlt hab)
  · exact UInt16.lt_irrefl _ (hpos ▸ hlt hba)

/-! ## References noted so far -/

/-- The second listing is the first one in which the references of the items `ids` have been noted. -/
structure Noted (g : Graph) (ids : List ItemId) (g' : Graph) : Prop where
  view : g'.codeView = g.codeView
  count : ∀ id < g.size, (g'.item id).xrefCount =
    g.references ids (g.item id).pos + if g.first? = some id then 1 else 0
  label : ∀ id < g.size, (g'.item id).label =
    if g.first? = some id ∨ 0 < g.references ids (g.item id).pos then some (g.placeName id) else none
  targets : ∀ id ∈ ids, ∀ target, (g.item id).leadsTo? = some target →
    (g'.item id).targetPos? = some target ∧
      ∃ site, g.findPos? target = some site ∧ (g'.item id).targetLabel? = some (g.placeName site)

section Noting

variable {g g' g'' : Graph} {ids : List ItemId} {id site : ItemId} {target : UInt16}

/-- An item that leads nowhere adds nothing. -/
theorem Noted.skip (h : g.Noted ids g') (hleads : (g.item id).leadsTo? = none) :
    g.Noted (ids ++ [id]) g' := by
  have hsame (pos : UInt16) : g.references (ids ++ [id]) pos = g.references ids pos := by
    rw [references_concat, hleads, if_neg (fun h => nomatch h), Nat.add_zero]
  refine ⟨h.view, fun other hother => ?_, fun other hother => ?_, fun other hother target htarget => ?_⟩
  · rw [hsame]
    exact h.count other hother
  · rw [hsame]
    exact h.label other hother
  · rcases List.mem_append.1 hother with hother | hother
    · exact h.targets other hother target htarget
    · rw [List.mem_singleton.1 hother, hleads] at htarget
      cases htarget

/-- An item that leads nowhere may be given any target. -/
theorem Noted.retarget (h : g.Noted ids g') (hleads : (g.item id).leadsTo? = none)
    (label : Option String) : g.Noted ids (g'.modify id (·.withTarget label none)) := by
  refine ⟨(codeView_modify (fun item => Item.code_withTarget item _ _) g' id).trans h.view,
    fun other hother => ?_, fun other hother => ?_, fun other hother target htarget => ?_⟩
  · rw [modify_keeps (p := Item.xrefCount) (fun item => Item.xrefCount_withTarget item _ _)]
    exact h.count other hother
  · rw [modify_keeps (p := Item.label) (fun item => Item.label_withTarget item _ _)]
    exact h.label other hother
  · have hne : other ≠ id := by
      rintro rfl
      rw [hleads] at htarget
      cases htarget
    rw [item_modify_of_ne hne]
    exact h.targets other hother target htarget

/-- What a place shows when one more item leads to it. -/
theorem Noted.referenced_item (h : g.Noted ids g') (hsite : site < g.size)
    (hpos : (g.item site).pos = target) :
    (g'.item site).referenced target =
      { g'.item site with
        label := some (g.placeName site)
        xrefCount := (g'.item site).xrefCount + 1 } := by
  have hcount := h.count site hsite
  have hlabel := h.label site hsite
  unfold Item.referenced
  by_cases hzero : (g'.item site).xrefCount = 0
  · -- Nothing leads here yet, and it is not the first item.
    have hfirst : g.first? ≠ some site := fun hfirst => by
      rw [hcount, if_pos hfirst] at hzero
      exact Nat.succ_ne_zero _ hzero
    rw [if_pos hzero, placeName, if_neg hfirst, hpos]
  · have hknown : g.first? = some site ∨ 0 < g.references ids (g.item site).pos := by
      by_contra hnone
      rw [not_or] at hnone
      rw [hcount, if_neg hnone.1] at hzero
      exact hnone.2 (Nat.pos_of_ne_zero hzero)
    rw [if_neg hzero, hlabel, if_pos hknown, Option.getD_some]

/-- One more item leads to a place, and nothing else is noted. -/
theorem Noted.item_modify_referenced (h : g.Noted ids g') (hsite : site < g.size)
    (hpos : (g.item site).pos = target) (other : ItemId) :
    (g'.modify site (·.referenced target)).item other =
      if other = site then { g'.item site with
        label := some (g.placeName site)
        xrefCount := (g'.item site).xrefCount + 1 } else g'.item other := by
  by_cases hother : other = site
  · rw [hother, item_modify_self ((size_of_codeView_eq h.view).symm ▸ hsite), if_pos rfl,
      h.referenced_item hsite hpos]
  · rw [item_modify_of_ne hother, if_neg hother]

/-- An item that leads to a place is counted at that place alone. -/
theorem Single.references_leading (hsingle : g.Single) (hsite : site < g.size)
    (hleads : (g.item id).leadsTo? = some (g.item site).pos) {other : ItemId} (hother : other < g.size) :
    g.references (ids ++ [id]) (g.item other).pos =
      g.references ids (g.item other).pos + if other = site then 1 else 0 := by
  rw [references_concat, hleads]
  by_cases heq : other = site
  · rw [if_pos (by rw [heq]), if_pos heq]
  · rw [if_neg ?_, if_neg heq]
    rw [Option.some.injEq]
    exact fun hsame => heq (hsingle other hother site hsite hsame.symm)

/-- An item that leads to a place is noted there, and the place is noted with the item. -/
theorem Noted.leading (h : g.Noted ids g') (hg : g.Ordered) (hsingle : g.Single) (hid : id < g.size)
    (hnew : id ∉ ids) (hleads : (g.item id).leadsTo? = some target)
    (hfind : g.findPos? target = some site) :
    g.Noted (ids ++ [id]) ((g'.modify site (·.referenced target)).modify id
      (·.withTarget (some (g.placeName site)) (some target))) := by
  obtain ⟨hmem, hpos⟩ := hg.of_findPos? hfind
  have hsite := hg.lt_of_mem hmem
  have hsize := size_of_codeView_eq h.view
  have hitem := h.item_modify_referenced hsite hpos
  have hreferences {other : ItemId} (hother : other < g.size) :
      g.references (ids ++ [id]) (g.item other).pos =
        g.references ids (g.item other).pos + if other = site then 1 else 0 :=
    hsingle.references_leading hsite (hpos.symm ▸ hleads) hother
  have hreferencedView : (g'.modify site (·.referenced target)).codeView = g'.codeView :=
    codeView_modify (f := (·.referenced target)) (fun _ => rfl) g' site
  refine ⟨((codeView_modify (fun item => Item.code_withTarget item _ _) _ id).trans hreferencedView).trans
    h.view, fun other hother => ?_, fun other hother => ?_, fun other hother target' htarget => ?_⟩
  · rw [modify_keeps (p := Item.xrefCount) (fun item => Item.xrefCount_withTarget item _ _), hitem,
      hreferences hother]
    have hcount := h.count other hother
    by_cases heq : other = site
    · subst heq
      simp only [if_pos]
      omega
    · simp only [if_neg heq]
      exact hcount
  · rw [modify_keeps (p := Item.label) (fun item => Item.label_withTarget item _ _), hitem,
      hreferences hother]
    by_cases heq : other = site
    · subst heq
      simp
    · simp only [if_neg heq]
      exact h.label other hother
  · by_cases hsame : other = id
    · subst hsame
      rw [hleads, Option.some.injEq] at htarget
      subst htarget
      have hcode : ((g'.modify site (·.referenced target)).item other).isOpcodeItem = true := by
        rw [isOpcodeItem_eq_of_code (code_of_codeView_eq (hreferencedView.trans h.view) other)]
        exact Item.isOpcodeItem_of_leadsTo? hleads
      rw [item_modify_self (by rwa [size_modify, hsize]), Item.targetPos?_withTarget hcode,
        Item.targetLabel?_withTarget hcode]
      exact ⟨rfl, site, hfind, rfl⟩
    · have hother' : other ∈ ids :=
        (List.mem_append.1 hother).resolve_right fun h => hsame (List.mem_singleton.1 h)
      rw [item_modify_of_ne hsame, hitem]
      have htargets := h.targets other hother' target' htarget
      split
      · rename_i heq
        subst heq
        exact htargets
      · exact htargets

/-- What is noted before the first item has been looked at. -/
theorem noted_start (hg : g.Ordered) {first : ItemId} (hfirst : g.first? = some first)
    (hbare : ∀ id, (g.item id).label = none ∧ (g.item id).xrefCount = 0) :
    g.Noted [] (g.modify first fun item =>
      { item with label := some startFunction, xrefCount := 1 }) := by
  have hlt : first < g.size := hg.lt_of_mem (List.mem_of_mem_head? hfirst)
  refine ⟨codeView_modify (f := fun item => { item with label := some startFunction, xrefCount := 1 })
      (fun _ => rfl) g first, fun id _ => ?_, fun id _ => ?_, fun id hid => nomatch hid⟩
  · by_cases hid : id = first
    · rw [hid, item_modify_self hlt, if_pos hfirst]
      rfl
    · rw [item_modify_of_ne hid, if_neg fun h => hid (Option.some.inj (h.symm.trans hfirst))]
      exact (hbare id).2
  · by_cases hid : id = first
    · rw [hid, item_modify_self hlt, if_pos (Or.inl hfirst), placeName, if_pos hfirst]
    · have hnone : ¬ (g.first? = some id ∨ 0 < g.references [] (g.item id).pos) := by
        rintro (h | h)
        · exact hid (Option.some.inj (h.symm.trans hfirst))
        · exact Nat.lt_irrefl 0 h
      rw [item_modify_of_ne hid, if_neg hnone]
      exact (hbare id).1

end Noting

/-! ## The census -/

/-- The labels, counts and targets of a listing of instructions are those that the instructions give. -/
structure Census (g : Graph) : Prop where
  start : ∃ first, g.first? = some first ∧ (g.item first).pos = 0 ∧
    (g.item first).label = some startFunction
  label : ∀ id ∈ g.order, ∀ name, (g.item id).label = some name → g.first? ≠ some id →
    name = labelName (g.item id).pos
  labelled : ∀ id ∈ g.order, (g.item id).label.isSome ↔
    g.first? = some id ∨ ∃ jump ∈ g.order, (g.item jump).leadsTo? = some (g.item id).pos
  unique : ∀ a ∈ g.order, ∀ b ∈ g.order, (g.item a).label.isSome →
    (g.item a).label = (g.item b).label → a = b
  count : ∀ id ∈ g.order, (g.item id).xrefCount =
    g.references g.order (g.item id).pos + if g.first? = some id then 1 else 0
  targets : ∀ jump ∈ g.order, ∀ target, (g.item jump).leadsTo? = some target →
    (g.item jump).targetPos? = some target ∧ ∃ site ∈ g.order, (g.item site).pos = target ∧
      (g.item jump).targetLabel? = (g.item site).label ∧ (g.item site).label.isSome

/-- What does not stand at the beginning of the code has just the references that are made to it. -/
theorem Census.xrefCount_of_pos_ne_zero {g : Graph} (h : g.Census) {id : ItemId} (hid : id ∈ g.order)
    (hne : (g.item id).pos ≠ 0) : (g.item id).xrefCount = g.references g.order (g.item id).pos := by
  obtain ⟨first, hfirst, hzero, -⟩ := h.start
  rw [h.count id hid, if_neg, Nat.add_zero]
  intro hsame
  rw [hfirst, Option.some.injEq] at hsame
  exact hne (hsame ▸ hzero)

/-- Places with the same name are one place. -/
theorem placeName_inj {g : Graph} (hsingle : g.Single) {a b : ItemId} (ha : a < g.size)
    (hb : b < g.size) (h : g.placeName a = g.placeName b) : a = b := by
  unfold placeName at h
  split at h
  · rename_i hfirst
    split at h
    · rename_i hfirst'
      exact Option.some.inj (hfirst.symm.trans hfirst')
    · exact absurd h.symm (labelName_ne_startFunction _)
  · split at h
    · exact absurd h (labelName_ne_startFunction _)
    · exact hsingle a ha b hb (labelName_inj.1 h)

/-- When the references of all items have been noted, the census is taken. -/
theorem Noted.census {g g' : Graph} (h : g.Noted g.order g') (hg : g.Ordered) (hsingle : g.Single)
    (hstart : ∃ first, g.first? = some first ∧ (g.item first).pos = 0) : g'.Census := by
  have hcode (id : ItemId) := code_of_codeView_eq h.view id
  have hpos (id : ItemId) : (g'.item id).pos = (g.item id).pos := congrArg Prod.fst (hcode id)
  have hleads (id : ItemId) : (g'.item id).leadsTo? = (g.item id).leadsTo? := Item.leadsTo?_congr (hcode id)
  have horder := order_of_codeView_eq h.view
  have hfirst? : g'.first? = g.first? := congrArg List.head? horder
  have hreferenced (pos : UInt16) : 0 < g.references g.order pos ↔
      ∃ jump ∈ g.order, (g.item jump).leadsTo? = some pos := by
    simp [references, List.countP_pos_iff]
  have hlabel {id : ItemId} {name : String} (hid : id ∈ g.order)
      (hname : (g'.item id).label = some name) : name = g.placeName id := by
    rw [h.label id (hg.lt_of_mem hid)] at hname
    split at hname
    · exact (Option.some.inj hname).symm
    · cases hname
  obtain ⟨first, hfirst, hzero⟩ := hstart
  refine ⟨⟨first, hfirst?.trans hfirst, (hpos first).trans hzero, ?_⟩, ?_, ?_, ?_, ?_, ?_⟩
  · rw [h.label first (hg.lt_of_mem (List.mem_of_mem_head? hfirst)), if_pos (Or.inl hfirst), placeName,
      if_pos hfirst]
  · intro id hid name hname hother
    rw [horder] at hid
    rw [hfirst?] at hother
    rw [hlabel hid hname, placeName, if_neg hother, hpos]
  · intro id hid
    rw [horder] at hid
    rw [h.label id (hg.lt_of_mem hid), hfirst?, horder, hpos]
    simp only [hleads, ← hreferenced]
    split
    · rename_i hknown
      exact iff_of_true rfl hknown
    · rename_i hunknown
      exact iff_of_false (fun h => nomatch h) hunknown
  · intro a ha b hb hsome hsame
    rw [horder] at ha hb
    obtain ⟨name, hname⟩ := Option.isSome_iff_exists.1 hsome
    exact placeName_inj hsingle (hg.lt_of_mem ha) (hg.lt_of_mem hb)
      ((hlabel ha hname).symm.trans (hlabel hb (hsame ▸ hname)))
  · intro id hid
    rw [horder] at hid
    rw [h.count id (hg.lt_of_mem hid), hfirst?, horder, references_congr h.view, hpos]
  · intro jump hjump target htarget
    rw [horder] at hjump
    rw [hleads] at htarget
    obtain ⟨hknown, site, hfind, hname⟩ := h.targets jump hjump target htarget
    obtain ⟨hsite, hsitePos⟩ := hg.of_findPos? hfind
    have hsiteLabel : (g'.item site).label = some (g.placeName site) := by
      rw [h.label site (hg.lt_of_mem hsite), hsitePos,
        if_pos (Or.inr ((hreferenced target).2 ⟨jump, hjump, htarget⟩))]
    refine ⟨hknown, site, horder ▸ hsite, (hpos site).trans hsitePos, hname.trans hsiteLabel.symm, ?_⟩
    rw [hsiteLabel]
    rfl

/-- The foremost instruction of a code segment stands at its beginning. -/
theorem pos_first_ofCode {code : CodeWords} {first : ItemId} (h : (ofCode code).first? = some first) :
    ((ofCode code).item first).pos = 0 := by
  rw [first?, order_ofCode] at h
  cases hstarts : (starts code) with
  | nil =>
    rw [hstarts] at h
    cases h
  | cons start rest =>
    have hfirst : first = 0 := by
      rw [hstarts, List.length_cons, List.range_succ_eq_map] at h
      exact (Option.some.inj h).symm
    have hzero : start = 0 := by
      have hsize : 0 < code.size :=
        Nat.lt_of_le_of_lt (Nat.zero_le start) (lt_of_mem_starts (hstarts ▸ List.mem_cons_self)).1
      have hhead := head?_starts hsize
      rw [hstarts] at hhead
      exact Option.some.inj hhead
    have hstart : (starts code)[first]? = some 0 := by rw [hfirst, hstarts, hzero]; rfl
    rw [item_ofCode hstart, pos_itemAt]
    rfl

end Graph

/-! ## The pass -/

namespace Pass

open Fallible Decompilation

variable {d d' : Decompilation} {g : Graph} {ids : List ItemId} {id : ItemId}

/-- The fault that an item gives: it is to name an imported function and does not, or it leads to a position
at which nothing stands. -/
def offence? (d : Decompilation) (id : ItemId) : Option DecompileFault :=
  let item := d.graph.item id
  if item.opcode? = some .calli then
    if (d.importedFunctions.get? item.operandOrZero).isSome then none
    else some (.unknownIntrinsic item.pos item.operandOrZero)
  else
    match item.leadsTo? with
    | none => none
    | some target =>
      if d.graph.order.any fun site => (d.graph.item site).pos = target then none
      else some (.unresolvedJumpTarget item.pos target)

/-- The fault that disassembly ends with, if any: that of the first item that gives one. -/
def firstOffence? (d : Decompilation) : Option DecompileFault :=
  if d.graph.order = [] then some .emptyCode else d.graph.order.findSome? (offence? d)

/-- The offences of items are a matter of the code and of what is imported. -/
theorem offence?_congr (h : codeView d' = codeView d) : offence? d' = offence? d := by
  funext id
  have hcode (id : ItemId) := Graph.code_of_codeView_eq (graph_of_codeView_eq h) id
  have hpos (id : ItemId) : (d'.graph.item id).pos = (d.graph.item id).pos := congrArg Prod.fst (hcode id)
  unfold offence?
  simp only [Item.opcode?_of_code (hcode id), Item.operandOrZero_of_code (hcode id), hpos,
    Item.leadsTo?_congr (hcode id), importedFunctions_of_codeView_eq h,
    Graph.order_of_codeView_eq (graph_of_codeView_eq h)]

theorem resolveTarget_of_offence (hd : d.graph.Ordered) {fault : DecompileFault}
    (h : offence? d id = some fault) : resolveTarget id d = .error fault d := by
  unfold offence? at h
  dsimp only at h
  rw [resolveTarget_apply]
  split at h
  · rename_i hcalli
    rw [if_pos hcalli, importedName_apply]
    split at h
    · cases h
    · rename_i hnone
      rw [Option.not_isSome_iff_eq_none] at hnone
      cases h
      rw [hnone]
  · rename_i hcalli
    rw [if_neg hcalli]
    rcases Option.eq_none_or_eq_some (d.graph.item id).leadsTo? with hleads | ⟨target, hleads⟩
    · rw [hleads] at h
      cases h
    · rw [hleads] at h ⊢
      dsimp only at h ⊢
      rw [← hd.isSome_findPos?_eq_any] at h
      rw [reference_apply]
      split at h
      · cases h
      · rename_i hnone
        rw [Option.not_isSome_iff_eq_none] at hnone
        cases h
        rw [hnone]

/-- An item that gives no fault is resolved, and its reference is noted. -/
theorem noted_resolveTarget (hg : g.Ordered) (hsingle : g.Single) (h : g.Noted ids d.graph)
    (hd : d.graph.Ordered) (hid : id < g.size) (hnew : id ∉ ids) (hoffence : offence? d id = none) :
    ∃ d', resolveTarget id d = .ok () d' ∧ g.Noted (ids ++ [id]) d'.graph := by
  have hcode := Graph.code_of_codeView_eq h.view id
  unfold offence? at hoffence
  dsimp only at hoffence
  rw [resolveTarget_apply]
  split at hoffence
  · rename_i hcalli
    split at hoffence
    · rename_i himported
      obtain ⟨item, hitem⟩ := Option.isSome_iff_exists.1 himported
      rw [if_pos hcalli, importedName_apply, hitem]
      have hleads : (g.item id).leadsTo? = none := by
        rw [← Item.leadsTo?_congr hcode]
        exact Item.leadsTo?_of_calli hcalli
      exact ⟨_, rfl, (h.skip hleads).retarget hleads (some item.name)⟩
    · cases hoffence
  · rename_i hcalli
    rw [if_neg hcalli]
    rcases Option.eq_none_or_eq_some (d.graph.item id).leadsTo? with hleads | ⟨target, hleads⟩
    · rw [hleads]
      refine ⟨d, rfl, ?_⟩
      rw [Item.leadsTo?_congr hcode] at hleads
      exact h.skip hleads
    · rw [hleads] at hoffence ⊢
      dsimp only at hoffence ⊢
      rw [← hd.isSome_findPos?_eq_any] at hoffence
      split at hoffence
      · rename_i hfound
        obtain ⟨site, hsite⟩ := Option.isSome_iff_exists.1 hfound
        have hfind : g.findPos? target = some site := by
          rw [← Graph.findPos?_of_codeView_eq h.view, hsite]
        obtain ⟨hmem, hpos⟩ := hg.of_findPos? hfind
        have hlt := hg.lt_of_mem hmem
        rw [reference_apply, hsite]
        refine ⟨_, rfl, ?_⟩
        rw [Graph.item_modify_self (Graph.size_of_codeView_eq h.view ▸ hlt),
          h.referenced_item hlt hpos]
        rw [Item.leadsTo?_congr hcode] at hleads
        exact h.leading hg hsingle hid hnew hleads hfind
      · cases hoffence

/-- Going through items ends with the first fault that one of them gives, or notes all their references. -/
theorem noted_forM_resolveTarget (hg : g.Ordered) (hsingle : g.Single) {front behind : List ItemId}
    (horder : g.order = front ++ behind) (h : g.Noted front d.graph) :
    match behind.findSome? (offence? d) with
    | some fault => ∃ d', behind.forM resolveTarget d = .error fault d'
    | none => ∃ d', behind.forM resolveTarget d = .ok () d' ∧ g.Noted g.order d'.graph := by
  induction behind generalizing front d with
  | nil =>
    rw [List.append_nil] at horder
    exact ⟨d, rfl, horder ▸ h⟩
  | cons id rest ih =>
    have hd : d.graph.Ordered := hg.of_codeView_eq h.view
    have hlt : id < g.size := hg.lt_of_mem (horder ▸ List.mem_append_right _ List.mem_cons_self)
    rw [List.findSome?_cons]
    cases hoffence : offence? d id with
    | some fault =>
      exact ⟨d, bind_of_error (f := fun _ => rest.forM resolveTarget)
        (resolveTarget_of_offence hd hoffence)⟩
    | none =>
      obtain ⟨d₁, hfirst, hnoted⟩ :=
        noted_resolveTarget hg hsingle h hd hlt (hg.notMem_front horder) hoffence
      have horder' : g.order = (front ++ [id]) ++ rest := by rw [horder, List.append_assoc]; rfl
      have hrest := ih horder' hnoted
      rw [offence?_congr ((keeps_resolveTarget id).of_ok hfirst)] at hrest
      rw [forM_cons_of_ok hfirst]
      exact hrest

/-- The references of a listing without any are collected unless an instruction gives a fault. -/
theorem noted_collectReferences (hd : d.graph.Ordered) (hsingle : d.graph.Single)
    (hbare : ∀ id, (d.graph.item id).label = none ∧ (d.graph.item id).xrefCount = 0) :
    match firstOffence? d with
    | some fault => ∃ d', collectReferences d = .error fault d'
    | none => (∃ first, d.graph.first? = some first) ∧
      ∃ d', collectReferences d = .ok () d' ∧ d.graph.Noted d.graph.order d'.graph := by
  rw [collectReferences_apply, firstOffence?]
  cases hfirst : d.graph.first? with
  | none =>
    rw [if_pos (List.head?_eq_none_iff.1 hfirst)]
    exact ⟨d, rfl⟩
  | some first =>
    have hne : d.graph.order ≠ [] := by
      intro hnil
      rw [Graph.first?, hnil] at hfirst
      cases hfirst
    have hstarted : codeView (d.onGraph (·.modify first fun item =>
        { item with label := some startFunction, xrefCount := 1 })) = codeView d :=
      codeView_modify (f := fun item => { item with label := some startFunction, xrefCount := 1 })
        (fun _ => rfl) first d
    have hall := noted_forM_resolveTarget
      (d := d.onGraph (·.modify first fun item => { item with label := some startFunction, xrefCount := 1 }))
      hd hsingle (List.nil_append d.graph.order).symm (Graph.noted_start hd hfirst hbare)
    rw [offence?_congr hstarted] at hall
    rw [if_neg hne]
    cases hoffence : d.graph.order.findSome? (offence? d) with
    | some fault =>
      rw [hoffence] at hall
      exact hall
    | none =>
      rw [hoffence] at hall
      exact ⟨⟨first, rfl⟩, hall⟩

/-- Collecting the references of an image ends with the first fault or with the census. -/
theorem collectReferences_ofImage (image : Image) (strings : List String) (options : NamingOptions) :
    match firstOffence? (.ofImage image strings options) with
    | some fault => ∃ d', collectReferences (.ofImage image strings options) = .error fault d'
    | none => ∃ d', collectReferences (.ofImage image strings options) = .ok () d' ∧ d'.graph.Census := by
  have hg := Graph.ofCode_ordered image.code
  have hsingle := Graph.single_ofCode image.code
  have hcollect := noted_collectReferences (d := .ofImage image strings options) hg hsingle fun id =>
    Graph.forall_item_ofCode (p := fun item => item.label = none ∧ item.xrefCount = 0) ⟨rfl, rfl⟩
      (fun _ _ => ⟨rfl, rfl⟩) id
  cases hoffence : firstOffence? (ofImage image strings options) with
  | some fault =>
    rw [hoffence] at hcollect
    exact hcollect
  | none =>
    rw [hoffence] at hcollect
    obtain ⟨⟨first, hfirst⟩, d', hok, hnoted⟩ := hcollect
    exact ⟨d', hok, hnoted.census hg hsingle ⟨first, hfirst, Graph.pos_first_ofCode hfirst⟩⟩

/-- The instructions of an image stand in the order of their positions.  Disassembly ends with the fault of the
first that leads to no instruction or names no imported function; if there is none, with the census. -/
theorem disassemble_ofImage (image : Image) (strings : List String) (options : NamingOptions) :
    (Graph.ofCode image.code).order.Pairwise (fun a b =>
      ((Graph.ofCode image.code).item a).pos < ((Graph.ofCode image.code).item b).pos) ∧
    match firstOffence? (.ofImage image strings options) with
    | some fault => ∃ d', disassemble (.ofImage image strings options) = .error fault d'
    | none => ∃ d', disassemble (.ofImage image strings options) = .ok () d' ∧
        codeView d' = codeView (.ofImage image strings options) ∧ d'.graph.Census := by
  refine ⟨Graph.pairwise_order_ofItems (Graph.pairwise_codeItems image.code), ?_⟩
  have hcollect := collectReferences_ofImage image strings options
  have hkeeps := keeps_disassemble (ofImage image strings options)
  rw [disassemble_apply, if_pos (show (ofImage image strings options).stage = .fresh from rfl)] at *
  cases hoffence : firstOffence? (ofImage image strings options) with
  | some fault =>
    rw [hoffence] at hcollect
    obtain ⟨d', hfault⟩ := hcollect
    exact ⟨d', by rw [hfault]⟩
  | none =>
    rw [hoffence] at hcollect
    obtain ⟨d', hok, hcensus⟩ := hcollect
    rw [hok] at hkeeps
    exact ⟨{ d' with stage := .disassembled }, by rw [hok], hkeeps, hcensus⟩

end Pass

end Parley
