import Parley.Decompile.Decompile
import Parley.Proofs.Control.Recovery
set_option autoImplicit false

/-!
# Jumps that are left

A jump or branch that no switch, loop or conditional explains is replaced by a line, and where the line goes to a label
the label is written.  With that all jumps of a function that lead anywhere are explained.
-/

namespace Parley

namespace Graph

variable {g g' : Graph} {start stop id : ItemId} {marks : List ItemId} {puts : List Put} {target : UInt16}
  {name : String}

/-- What a jump leads to and is called stays the same. -/
theorem Overlays.aims (h : g.Overlays marks puts g') (haims : g.Aims start stop id target name) :
    g'.Aims start stop id target name := by
  have hop := h.opcodeItem?_eq (Graph.lt_size_of_isOpcodeItem (Item.isOpcodeItem_of_isJump haims.isJump))
  refine ⟨haims.within.mono h.order, (Item.isJump_of_opcodeItem? hop).trans haims.isJump,
    (Item.targetPos?_of_opcodeItem? hop).trans haims.leads, ?_⟩
  rw [haims.named, Item.targetLabel?, Item.targetLabel?, hop]

end Graph

namespace Recovery

variable {start stop id : ItemId} {w w' : Recovery} {target : UInt16} {name : String}

/-- A jump is replaced by lines, and the label is written that they go to.  No other instruction is marked. -/
structure Spends (start stop : ItemId) (w : Recovery) (id : ItemId) (w' : Recovery) : Prop where
  leads : w.Leads start stop w'
  ranges : w'.ranges = w.ranges
  spent : (w'.graph.item id).processed = true
  others : ∀ other, other ≠ id → (w.graph.item other).isOpcodeItem = true →
    (w'.graph.item other).processed = (w.graph.item other).processed

/-- A line takes the place of a jump. -/
theorem spends_of_does {deed : Deed} (h : w.Does start stop deed w') (hrange : deed.range? w.graph = none)
    (hid : id ∈ deed.marks) (hmarks : ∀ other ∈ deed.marks, other ≠ id → (w.graph.item other).isOpcodeItem = false) :
    w.Spends start stop id w' where
  leads := leads_of_does _ h
  ranges := by rw [h.ranges, hrange]; rfl
  spent := (h.overlays.processed_iff (h.overlays.marked id hid).1).2 (Or.inr hid)
  others other hne hop := by
    rw [h.overlays.old other (Graph.lt_size_of_isOpcodeItem hop)]
    split
    · rename_i hmem
      rw [hmarks other hmem hne] at hop
      cases hop
    · rfl

/-- The label is written behind. -/
theorem Spends.label (h : w.Spends start stop id w') (hg : w.graph.Ready start stop)
    (haims : w'.graph.Aims start stop id target name) {site : ItemId} (hsite : w'.graph.findPos? target = some site)
    (hneeded : target ∈ w'.needed) (hnew : target ∉ w'.written) :
    w.Spends start stop id { w' with
      graph := w'.graph.addStatement site ⟨name ++ ":;", .label name⟩
      written := target :: w'.written } := by
  have hordered := (h.leads.ready hg).ordered
  have hoverlays := (Graph.Overlays.refl hordered).add (hordered.lt_of_findPos? hsite)
    ⟨name ++ ":;", .label name⟩
  have hdoes : w'.Does start stop (.label site target name) { w' with
      graph := w'.graph.addStatement site ⟨name ++ ":;", .label name⟩
      written := target :: w'.written } :=
    ⟨.label haims hsite hneeded hnew, hoverlays, rfl, rfl, rfl⟩
  have hkept {other : ItemId} (hlt : other < w'.graph.size) :=
    congrArg Item.processed ((hoverlays.old other hlt).trans (if_neg List.not_mem_nil))
  have hsize (other : ItemId) (hop : (w.graph.item other).isOpcodeItem = true) : other < w'.graph.size :=
    Nat.lt_of_lt_of_le (Graph.lt_size_of_isOpcodeItem hop) (h.leads.retains hg.ordered).longer.size
  refine ⟨h.leads.trans (leads_of_does _ hdoes), h.ranges, ?_, fun other hne hop => ?_⟩
  · exact (hkept (hordered.lt_of_mem haims.within.1.right_mem)).trans h.spent
  · exact (hkept (hsize other hop)).trans (h.others other hne hop)

end Recovery

namespace Pass

open Fallible

variable {start stop id : ItemId} {d d' : Decompilation} {w w' : Recovery} {func : Nat} {target : UInt16}
  {name : String} {written : List UInt16}

/-- A decompilation whose listing and whose loops are those of a stage of the recovery. -/
structure At (d : Decompilation) (w : Recovery) : Prop where
  graph : d.graph = w.graph
  ranges : d.loopRanges = w.ranges

/-- What a jump that is left comes to. -/
structure Leftover (start stop : ItemId) (w : Recovery) (d : Decompilation) (id : ItemId) (written : List UInt16)
    (d' : Decompilation) (w' : Recovery) : Prop where
  spends : w.Spends start stop id w'
  reached : At d' w'
  functions : d'.functions = d.functions
  written : w'.written = written
  labelled : w.needed ⊆ w.written → w'.needed ⊆ w'.written

/-- A line that goes to a label takes the place of a jump, and the label is written behind unless it stands. -/
theorem exists_leftover_addGotoLabel {d₁ : Decompilation} {w₁ : Recovery} (hg : w.graph.Ready start stop)
    (hspends : w.Spends start stop id w₁) (hat : At d₁ w₁) (hfunctions : d₁.functions = d.functions)
    (hneeded : w₁.needed = target :: w.needed) (hwritten : w₁.written = w.written)
    (haims : w₁.graph.Aims start stop id target name) (hfound : (w₁.graph.findPos? target).isSome = true)
    (h : addGotoLabel w.written target name d₁ = .ok written d') : ∃ w', Leftover start stop w d id written d' w' := by
  have hmem : target ∈ w₁.needed := hneeded ▸ List.mem_cons_self
  rw [← hwritten] at h
  unfold addGotoLabel at h
  split at h
  · rename_i hcontains
    obtain ⟨rfl, rfl⟩ := pure_eq_ok.1 h
    refine ⟨w₁, hspends, hat, hfunctions, rfl, fun hlabelled => ?_⟩
    rw [hneeded, hwritten]
    exact List.cons_subset.2 ⟨hwritten ▸ List.contains_iff_mem.1 hcontains, hlabelled⟩
  · rename_i hcontains
    obtain ⟨d₂, d₃, hget, h⟩ := bind_eq_ok.1 h
    cases hget
    obtain ⟨site, hsite⟩ := Option.isSome_iff_exists.1 hfound
    rw [hat.graph] at h
    dsimp only at h
    rw [hsite] at h
    obtain ⟨_, d₄, hadd, h⟩ := bind_eq_ok.1 h
    obtain ⟨rfl, rfl⟩ := pure_eq_ok.1 h
    cases hadd
    refine ⟨_, hspends.label hg haims hsite hmem fun hmem => hcontains (List.contains_iff_mem.2 hmem),
      ⟨congrArg (fun g : Graph => g.addStatement site ⟨name ++ ":;", .label name⟩) hat.graph, hat.ranges⟩, hfunctions,
      rfl, fun hlabelled => ?_⟩
    dsimp only
    rw [hneeded, hwritten]
    exact List.cons_subset_cons _ hlabelled

theorem exists_leftover_writeJump (hg : w.graph.Ready start stop) (hat : At d w)
    (hjump : (w.graph.item id).isOpenJump = true) (haims : w.graph.Aims start stop id target name)
    (hfound : (w.graph.findPos? target).isSome = true)
    (h : writeJump func w.written id target name d = .ok written d') :
    ∃ w', Leftover start stop w d id written d' w' := by
  obtain ⟨hid, hstatement⟩ := Graph.bare_of_isOpenJump hjump
  have hline (line : Statement) := (Graph.Overlays.refl hg.ordered).replace hid hstatement line
  have hsingle : ∀ other ∈ [id], other ≠ id → (w.graph.item other).isOpcodeItem = false :=
    fun other hother hne => absurd (List.mem_singleton.1 hother) hne
  have hreplaced (line : Statement) : (d.onGraph (·.replaceByStatement id line)).graph =
      w.graph.replaceByStatement id line :=
    congrArg (fun g : Graph => g.replaceByStatement id line) hat.graph
  unfold writeJump at h
  obtain ⟨d₁, d₂, hget, h⟩ := bind_eq_ok.1 h
  cases hget
  split at h
  · obtain ⟨_, d₃, hreplace, h⟩ := bind_eq_ok.1 h
    obtain ⟨rfl, rfl⟩ := pure_eq_ok.1 h
    cases hreplace
    have hdoes : w.Does start stop (.returns id)
        { w with graph := w.graph.replaceByStatement id (.plain "return;") } :=
      ⟨.returns hjump, hline _, rfl, rfl, rfl⟩
    exact ⟨_, Recovery.spends_of_does hdoes rfl List.mem_cons_self hsingle, ⟨hreplaced _, hat.ranges⟩, rfl, rfl,
      fun hlabelled => hlabelled⟩
  · split at h
    · rename_i hcontinue
      obtain ⟨_, d₃, hreplace, h⟩ := bind_eq_ok.1 h
      obtain ⟨rfl, rfl⟩ := pure_eq_ok.1 h
      cases hreplace
      rw [hat.ranges, hat.graph] at hcontinue
      have hdoes : w.Does start stop (.continues id)
          { w with graph := w.graph.replaceByStatement id ⟨"continue;", .continues⟩ } :=
        ⟨.continues hjump haims.leads hcontinue, hline _, rfl, rfl, rfl⟩
      exact ⟨_, Recovery.spends_of_does hdoes rfl List.mem_cons_self hsingle, ⟨hreplaced _, hat.ranges⟩, rfl, rfl,
      fun hlabelled => hlabelled⟩
    · obtain ⟨_, d₃, hreplace, h⟩ := bind_eq_ok.1 h
      cases hreplace
      have hdoes : w.Does start stop (.goto id target name) { w with
          graph := w.graph.replaceByStatement id ⟨"goto " ++ name ++ ";", .goto name⟩
          needed := target :: w.needed } :=
        ⟨.goto hjump haims, hline _, rfl, rfl, rfl⟩
      exact exists_leftover_addGotoLabel hg (Recovery.spends_of_does hdoes rfl List.mem_cons_self hsingle)
        ⟨hreplaced _, hat.ranges⟩ rfl rfl rfl (hdoes.overlays.aims haims)
        (hdoes.overlays.extends.isSome_findPos? hg.ordered hdoes.overlays.ordered hfound) h

theorem exists_leftover_writeBranch (hg : w.graph.Ready start stop) (hat : At d w) (hstart : (d.bounds func).1 = start)
    {opcode : Opcode} (hopen : (w.graph.item id).processed = false) (hbranch : (w.graph.item id).isConditional = true)
    (haims : w.graph.Aims start stop id target name) (hfound : (w.graph.findPos? target).isSome = true)
    (h : writeBranch func w.written id opcode target name d = .ok written d') :
    ∃ w', Leftover start stop w d id written d' w' := by
  unfold writeBranch at h
  obtain ⟨d₁, d₂, hget, h⟩ := bind_eq_ok.1 h
  cases hget
  dsimp only at h
  rw [hstart, hat.graph] at h
  cases hcondition : (w.graph.openExpressions (w.graph.backBetween start id)).head? with
  | none =>
    rw [hcondition] at h
    cases h
  | some condition =>
    rw [hcondition] at h
    obtain ⟨_, d₃, hmark, h⟩ := bind_eq_ok.1 h
    obtain ⟨_, d₄, hreplace, h⟩ := bind_eq_ok.1 h
    cases hmark
    cases hreplace
    -- The condition is the open expression nearest before the branch, so it stands in the function.
    obtain ⟨hbefore, hexpression⟩ := List.mem_filter.1 (List.mem_of_head? hcondition)
    obtain ⟨hfront, hback⟩ := (hg.ordered.mem_backBetween haims.within.1).1 hbefore
    have hbare := Graph.bare_of_isOpenExpression hexpression
    have hparts := hexpression
    rw [Item.isOpenExpression, Bool.and_eq_true, Bool.not_eq_true'] at hparts
    obtain ⟨e, he⟩ := Option.isSome_iff_exists.1 hparts.2
    have hfits : (⟨condition, e, id⟩ : Condition).Fits start stop w.graph :=
      ⟨hparts.1, he, ⟨hfront, hback.trans hg.ordered.nodup haims.within.2⟩, hopen, hbranch, haims.within⟩
    have hdoes : w.Does start stop (.gotoIf ⟨condition, e, id⟩ opcode target name) { w with
        graph := (w.graph.markProcessed id).replaceByStatement condition ⟨gotoIfText opcode e.text name, .gotoIf name⟩
        needed := target :: w.needed } :=
      ⟨.gotoIf hfits haims, ((Graph.Overlays.refl hg.ordered).mark hfits.bareBranch.1 hfits.bareBranch.2).replace
        hbare.1 hbare.2 _, rfl, rfl, rfl⟩
    have hmarks : ∀ other ∈ [id, condition], other ≠ id → (w.graph.item other).isOpcodeItem = false := by
      intro other hother hne
      obtain rfl : other = condition := by simpa [hne] using hother
      rw [Item.isOpcodeItem, (Item.of_expression? hparts.2).1]
      rfl
    have hreached : At ((d.onGraph (·.markProcessed id)).onGraph (·.replaceByStatement condition
        ⟨gotoIfText opcode (w.graph.conditionText condition) name, .gotoIf name⟩)) { w with
        graph := (w.graph.markProcessed id).replaceByStatement condition ⟨gotoIfText opcode e.text name, .gotoIf name⟩
        needed := target :: w.needed } := by
      rw [Graph.conditionText_eq he]
      exact ⟨congrArg (fun g : Graph => (g.markProcessed id).replaceByStatement condition _) hat.graph, hat.ranges⟩
    exact exists_leftover_addGotoLabel hg (Recovery.spends_of_does hdoes rfl List.mem_cons_self hmarks) hreached rfl rfl
      rfl (hdoes.overlays.aims haims)
      (hdoes.overlays.extends.isSome_findPos? hg.ordered hdoes.overlays.ordered hfound) h

/-- Of the instructions that are left those are written that jump or branch to a position, and nothing is done at the
others. -/
theorem writeLeftover_cases (func : Nat) (written : List UInt16) (id : ItemId) (d : Decompilation) :
    (∃ opcode target, (d.graph.item id).opcode? = some opcode ∧ (d.graph.item id).targetPos? = some target ∧
      (((opcode = .jmp ∨ opcode = .bra) ∧ writeLeftover func written id d =
          writeJump func written id target ((d.graph.item id).targetLabel?.getD (labelName target)) d) ∨
        (opcode.isConditional = true ∧ writeLeftover func written id d =
          writeBranch func written id opcode target ((d.graph.item id).targetLabel?.getD (labelName target)) d))) ∨
      (writeLeftover func written id d = .ok written d ∧
        ((d.graph.item id).isJump = true → (d.graph.item id).targetPos? = none)) := by
  unfold writeLeftover
  rw [bind_of_ok (get_apply d)]
  cases hitem : (d.graph.item id).opcodeItem? with
  | none => exact Or.inr ⟨rfl, fun _ => by rw [Item.targetPos?, hitem]; rfl⟩
  | some op =>
    have hopcode? : (d.graph.item id).opcode? = op.opcode := by rw [Item.opcode?, hitem, Option.bind_some]
    have htarget? : (d.graph.item id).targetPos? = op.targetPos := by rw [Item.targetPos?, hitem, Option.bind_some]
    have hlabel? : (d.graph.item id).targetLabel? = op.targetLabel := by
      rw [Item.targetLabel?, hitem, Option.bind_some]
    rw [Item.isJump, hopcode?, htarget?, hlabel?]
    dsimp only
    cases op.opcode with
    | none => exact Or.inr ⟨rfl, fun hjump => by cases hjump⟩
    | some opcode =>
      cases op.targetPos with
      | none => exact Or.inr ⟨rfl, fun _ => rfl⟩
      | some target =>
        cases opcode with
        | jmp => exact Or.inl ⟨_, _, rfl, rfl, Or.inl ⟨Or.inl rfl, rfl⟩⟩
        | bra => exact Or.inl ⟨_, _, rfl, rfl, Or.inl ⟨Or.inr rfl, rfl⟩⟩
        | beq => exact Or.inl ⟨_, _, rfl, rfl, Or.inr ⟨rfl, rfl⟩⟩
        | bne => exact Or.inl ⟨_, _, rfl, rfl, Or.inr ⟨rfl, rfl⟩⟩
        | _ => exact Or.inr ⟨rfl, fun hjump => by cases hjump⟩

/-- A jump that is left is written if it leads anywhere, and nothing else is done. -/
theorem exists_leftover_writeLeftover (hg : w.graph.Ready start stop) (hat : At d w)
    (hstart : (d.bounds func).1 = start) (hwithin : w.graph.Within start stop id)
    (hopen : (w.graph.item id).processed = false)
    (htargets : ∀ target, (w.graph.item id).targetPos? = some target → (w.graph.findPos? target).isSome = true)
    (h : writeLeftover func w.written id d = .ok written d') :
    (∃ w', Leftover start stop w d id written d' w') ∨
      (written = w.written ∧ d' = d ∧ ((w.graph.item id).isJump = true → (w.graph.item id).targetPos? = none)) := by
  have hcases := writeLeftover_cases func w.written id d
  rw [h, hat.graph] at hcases
  obtain ⟨opcode, target, hopcode, htarget, hwrites⟩ | ⟨hsame, hnone⟩ := hcases
  · have hfound := htargets target htarget
    have haims (hjump : opcode.isJump = true) : w.graph.Aims start stop id target
        ((w.graph.item id).targetLabel?.getD (labelName target)) :=
      ⟨hwithin, by rw [Item.isJump, hopcode]; exact hjump, htarget, rfl⟩
    obtain ⟨hjump, hwrites⟩ | ⟨hconditional, hwrites⟩ := hwrites
    · have hopenJump : (w.graph.item id).isOpenJump = true := by
        rw [Item.isOpenJump, Item.isOpenOpcode, Item.isOpenOpcode, hopen, Item.isOpcode, Item.isOpcode, hopcode]
        rcases hjump with rfl | rfl <;> rfl
      exact Or.inl (exists_leftover_writeJump hg hat hopenJump (haims (by rcases hjump with rfl | rfl <;> rfl)) hfound
        hwrites.symm)
    · have hbranch : (w.graph.item id).isConditional = true := by
        rw [Item.isConditional, hopcode]
        exact hconditional
      exact Or.inl (exists_leftover_writeBranch hg hat hstart hopen hbranch
        (haims (Opcode.isJump_of_isConditional hconditional)) hfound hwrites.symm)
  · cases hsame
    exact Or.inr ⟨rfl, rfl, hnone⟩

/-! ## The recovery of a function -/

/-- What the jumps of a list that are left come to. -/
structure Cleared (start stop : ItemId) (w : Recovery) (d : Decompilation) (ids : List ItemId) (d' : Decompilation)
    (w' : Recovery) : Prop where
  leads : w.Leads start stop w'
  reached : At d' w'
  functions : d'.functions = d.functions
  labelled : w.needed ⊆ w.written → w'.needed ⊆ w'.written
  spent : ∀ id ∈ ids, (w.graph.item id).isJump = true → (w.graph.item id).targetPos?.isSome = true →
    (w'.graph.item id).processed = true

/-- Instructions of a function that are left, of which those that lead anywhere lead to an item. -/
structure Pending (start stop : ItemId) (g : Graph) (ids : List ItemId) : Prop where
  nodup : ids.Nodup
  within : ∀ id ∈ ids, g.Within start stop id
  isOpcodeItem : ∀ id ∈ ids, (g.item id).isOpcodeItem = true
  unprocessed : ∀ id ∈ ids, (g.item id).processed = false
  found : ∀ id ∈ ids, ∀ target, (g.item id).targetPos? = some target → (g.findPos? target).isSome = true

theorem Pending.tail {g : Graph} {ids : List ItemId} (h : Pending start stop g (id :: ids)) :
    Pending start stop g ids where
  nodup := h.nodup.tail
  within other hother := h.within other (List.mem_cons_of_mem _ hother)
  isOpcodeItem other hother := h.isOpcodeItem other (List.mem_cons_of_mem _ hother)
  unprocessed other hother := h.unprocessed other (List.mem_cons_of_mem _ hother)
  found other hother := h.found other (List.mem_cons_of_mem _ hother)

/-- The others are left when one has been written. -/
theorem Pending.spends {ids : List ItemId} (h : Pending start stop w.graph (id :: ids))
    (hg : w.graph.Ready start stop) (hspends : w.Spends start stop id w') : Pending start stop w'.graph ids where
  nodup := h.tail.nodup
  within other hother := (h.tail.within other hother).mono (hspends.leads.retains hg.ordered).longer.order
  isOpcodeItem other hother := by
    have hop := h.tail.isOpcodeItem other hother
    rw [Item.isOpcodeItem, (hspends.leads.retains hg.ordered).opcodeItem? other (Graph.lt_size_of_isOpcodeItem hop)]
    exact hop
  unprocessed other hother := by
    have hne : other ≠ id := fun heq => (List.nodup_cons.1 h.nodup).1 (heq ▸ hother)
    exact (hspends.others other hne (h.tail.isOpcodeItem other hother)).trans (h.tail.unprocessed other hother)
  found other hother target htarget := by
    have hretains := hspends.leads.retains hg.ordered
    rw [Item.targetPos?_of_opcodeItem? (hretains.opcodeItem? other
      (Graph.lt_size_of_isOpcodeItem (h.tail.isOpcodeItem other hother)))] at htarget
    exact hretains.longer.isSome_findPos? hg.ordered hretains.ordered (h.tail.found other hother target htarget)

/-- One jump is written, and then the others. -/
theorem Leftover.cons {ids : List ItemId} {d'' : Decompilation} {w'' : Recovery} (hg : w.graph.Ready start stop)
    (hids : ∀ other ∈ ids, (w.graph.item other).isOpcodeItem = true)
    (h : Leftover start stop w d id written d' w') (hrest : Cleared start stop w' d' ids d'' w'') :
    Cleared start stop w d (id :: ids) d'' w'' := by
  have hretains := h.spends.leads.retains hg.ordered
  refine ⟨h.spends.leads.trans hrest.leads, hrest.reached, hrest.functions.trans h.functions,
    hrest.labelled ∘ h.labelled, fun other hother hjump htarget => ?_⟩
  rcases List.mem_cons.1 hother with rfl | hother
  · have hlt := Graph.lt_size_of_isOpcodeItem (Item.isOpcodeItem_of_isJump hjump)
    exact (hrest.leads.retains hretains.ordered).longer.processed other
      (Nat.lt_of_lt_of_le hlt hretains.longer.size) h.spends.spent
  · have hstays := hretains.opcodeItem? other (Graph.lt_size_of_isOpcodeItem (hids other hother))
    refine hrest.spent other hother ?_ ?_
    · rwa [Item.isJump_of_opcodeItem? hstays]
    · rwa [Item.targetPos?_of_opcodeItem? hstays]

/-- One instruction that leads nowhere is skipped. -/
theorem Cleared.skip {ids : List ItemId} (h : Cleared start stop w d ids d' w')
    (hnone : (w.graph.item id).isJump = true → (w.graph.item id).targetPos? = none) :
    Cleared start stop w d (id :: ids) d' w' := by
  refine ⟨h.leads, h.reached, h.functions, h.labelled, fun other hother hjump htarget => ?_⟩
  rcases List.mem_cons.1 hother with rfl | hother
  · rw [hnone hjump] at htarget
    cases htarget
  · exact h.spent other hother hjump htarget

theorem exists_cleared_leftovers {ids : List ItemId} (hg : w.graph.Ready start stop) (hat : At d w)
    (hstart : (d.bounds func).1 = start) (hpending : Pending start stop w.graph ids)
    (h : ids.foldlM (writeLeftover func) w.written d = .ok written d') : ∃ w', Cleared start stop w d ids d' w' := by
  induction ids generalizing w d with
  | nil =>
    obtain ⟨rfl, rfl⟩ := pure_eq_ok.1 h
    exact ⟨w, .refl, hat, rfl, fun hlabelled => hlabelled, fun _ hmem => absurd hmem List.not_mem_nil⟩
  | cons id rest ih =>
    rw [List.foldlM_cons] at h
    obtain ⟨written₁, d₁, hfirst, hothers⟩ := bind_eq_ok.1 h
    have hmem : id ∈ id :: rest := List.mem_cons_self
    rcases exists_leftover_writeLeftover hg hat hstart (hpending.within id hmem) (hpending.unprocessed id hmem)
      (hpending.found id hmem) hfirst with ⟨w₁, hleftover⟩ | ⟨rfl, rfl, hnone⟩
    · rw [← hleftover.written] at hothers
      have hstart' : (d₁.bounds func).1 = start := by
        rw [Decompilation.bounds, hleftover.functions]
        exact hstart
      obtain ⟨w₂, hcleared⟩ := ih (hleftover.spends.leads.ready hg) hleftover.reached hstart'
        (hpending.spends hg hleftover.spends) hothers
      exact ⟨w₂, hleftover.cons hg hpending.tail.isOpcodeItem hcleared⟩
    · obtain ⟨w₂, hcleared⟩ := ih hg hat hstart hpending.tail hothers
      exact ⟨w₂, hcleared.skip hnone⟩

/-- The instructions of a function that nothing has replaced. -/
theorem pending_between (hg : w.graph.Ready start stop)
    (htargets : ∀ id, w.graph.Within start stop id → ∀ target,
      (w.graph.item id).targetPos? = some target → (w.graph.findPos? target).isSome = true) :
    Pending start stop w.graph ((w.graph.between start stop).filter fun id =>
      !(w.graph.item id).processed && (w.graph.item id).isOpcodeItem) := by
  have hmem {id : ItemId} := hg.ordered.mem_between (x := id) hg.bounds
  refine ⟨(hg.ordered.nodup.sublist (w.graph.sublist_between start stop)).filter _,
    fun id hid => hmem.1 (List.mem_of_mem_filter hid), fun id hid => ?_, fun id hid => ?_,
    fun id hid => htargets id (hmem.1 (List.mem_of_mem_filter hid))⟩
  all_goals
    have hopen := (List.mem_filter.1 hid).2
    rw [Bool.and_eq_true, Bool.not_eq_true'] at hopen
  · exact hopen.2
  · exact hopen.1

/-- The jumps of a function that are left when its loops and conditionals are written. -/
theorem exists_cleared_writeJumps (hg : w.graph.Ready start stop) (hat : At d w)
    (hbounds : d.bounds func = (start, stop)) (hwritten : w.written = [])
    (htargets : ∀ id, w.graph.Within start stop id → ∀ target,
      (w.graph.item id).targetPos? = some target → (w.graph.findPos? target).isSome = true)
    (h : writeJumps func d = .ok () d') :
    ∃ w', Cleared start stop w d (w.graph.between start stop) d' w' := by
  unfold writeJumps at h
  obtain ⟨d₁, d₂, hget, h⟩ := bind_eq_ok.1 h
  cases hget
  obtain ⟨written, d₃, hfold, h⟩ := bind_eq_ok.1 h
  obtain ⟨-, rfl⟩ := pure_eq_ok.1 h
  have hbody : d.body func = w.graph.between start stop := by
    rw [Decompilation.body, hbounds]
    exact congrArg (fun g : Graph => g.between start stop) hat.graph
  rw [hbody, hat.graph, ← hwritten] at hfold
  obtain ⟨w', hcleared⟩ := exists_cleared_leftovers hg hat (congrArg Prod.fst hbounds)
    (pending_between hg htargets) hfold
  refine ⟨w', hcleared.leads, hcleared.reached, hcleared.functions, hcleared.labelled, fun id hid hjump htarget => ?_⟩
  have hop := Item.isOpcodeItem_of_isJump hjump
  cases hprocessed : (w.graph.item id).processed with
  | false =>
    refine hcleared.spent id (List.mem_filter.2 ⟨hid, ?_⟩) hjump htarget
    rw [hprocessed, hop]
    rfl
  | true =>
    exact (hcleared.leads.retains hg.ordered).longer.processed id (Graph.lt_size_of_isOpcodeItem hop) hprocessed

theorem within_of_mem_openExpressions (hg : w.graph.Ready start stop) (hat : At d w)
    (hbounds : d.bounds func = (start, stop)) :
    ∀ id ∈ d.graph.openExpressions (d.body func), w.graph.Within start stop id := by
  intro id hid
  rw [Decompilation.body, hbounds, hat.graph] at hid
  exact (hg.ordered.mem_between hg.bounds).1 (List.mem_of_mem_filter hid)

/-- A pass over the conditions of a function has gone on with the recovery. -/
structure Found (start stop : ItemId) (w : Recovery) (d d' : Decompilation) (w' : Recovery) : Prop where
  leads : w.Leads start stop w'
  reached : At d' w'
  functions : d'.functions = d.functions
  needed : w'.needed = w.needed
  written : w'.written = w.written

theorem Found.trans {d'' : Decompilation} {w'' : Recovery} (h : Found start stop w d d' w')
    (h' : Found start stop w' d' d'' w'') : Found start stop w d d'' w'' :=
  ⟨h.leads.trans h'.leads, h'.reached, h'.functions.trans h.functions, h'.needed.trans h.needed,
    h'.written.trans h.written⟩

theorem found_onGraph {f : ItemId → Graph → ItemId → Graph} (hg : w.graph.Ready start stop) (hat : At d w)
    (hbounds : d.bounds func = (start, stop))
    (hf : ∀ (w : Recovery) id, w.graph.Ready start stop → w.graph.Within start stop id →
      w.Leads start stop { w with graph := f stop w.graph id }) :
    ∃ w', Found start stop w d
      (d.onGraph fun g => (d.graph.openExpressions (d.body func)).foldl (f (d.bounds func).2) g) w' := by
  refine ⟨_, Recovery.leads_foldl_graph hg (within_of_mem_openExpressions hg hat hbounds) hf, ⟨?_, hat.ranges⟩,
    rfl, rfl, rfl⟩
  rw [hbounds, ← hat.graph]
  rfl

theorem exists_found_findSwitches (hg : w.graph.Ready start stop) (hat : At d w)
    (hbounds : d.bounds func = (start, stop)) (h : findSwitches func d = .ok () d') :
    ∃ w', Found start stop w d d' w' := by
  cases h
  exact found_onGraph hg hat hbounds fun _ _ => Recovery.leads_structureSwitch

theorem exists_found_findConditionals (hg : w.graph.Ready start stop) (hat : At d w)
    (hbounds : d.bounds func = (start, stop)) (h : findConditionals func d = .ok () d') :
    ∃ w', Found start stop w d d' w' := by
  cases h
  exact found_onGraph hg hat hbounds fun _ _ => Recovery.leads_structureConditional

theorem exists_found_findLoops {write : ItemId → LoopWork → ItemId → LoopWork} (hg : w.graph.Ready start stop)
    (hat : At d w) (hbounds : d.bounds func = (start, stop))
    (hwrite : ∀ (w : Recovery) id, w.graph.Ready start stop → w.graph.Within start stop id →
      w.Leads start stop { w with toLoopWork := write stop w.toLoopWork id })
    (h : findLoops func write d = .ok () d') : ∃ w', Found start stop w d d' w' := by
  have hwork : (⟨d.graph, d.loopRanges⟩ : LoopWork) = w.toLoopWork := by rw [hat.graph, hat.ranges]
  have hleads := Recovery.leads_foldl_work hg (within_of_mem_openExpressions hg hat hbounds) hwrite
  cases h
  refine ⟨_, hleads, ⟨?_, ?_⟩, rfl, rfl, rfl⟩
  all_goals
    dsimp only
    rw [hwork, hbounds]

/-- The control structures of a function are recovered by deeds.  All its jumps are explained then, and all labels are
written that lines go to. -/
theorem exists_cleared_structureFunction (hg : d.graph.Ready start stop) (hbounds : d.bounds func = (start, stop))
    (htargets : ∀ id, d.graph.Within start stop id → ∀ target,
      (d.graph.item id).targetPos? = some target → (d.graph.findPos? target).isSome = true)
    (h : structureFunction func d = .ok () d') :
    ∃ w', Cleared start stop ⟨⟨d.graph, d.loopRanges⟩, [], []⟩ d (d.body func) d' w' := by
  obtain ⟨_, d₁, hswitches, h⟩ := bind_eq_ok.1 h
  obtain ⟨_, d₂, hwhile, h⟩ := bind_eq_ok.1 h
  obtain ⟨_, d₃, hdoWhile, h⟩ := bind_eq_ok.1 h
  obtain ⟨_, d₄, hconditionals, h⟩ := bind_eq_ok.1 h
  have hkept {d' : Decompilation} (hfunctions : d'.functions = d.functions) : d'.bounds func = (start, stop) := by
    rw [Decompilation.bounds, hfunctions]
    exact hbounds
  obtain ⟨w₁, h₁⟩ := exists_found_findSwitches (w := ⟨⟨d.graph, d.loopRanges⟩, [], []⟩) hg ⟨rfl, rfl⟩ hbounds hswitches
  obtain ⟨w₂, hnext⟩ := exists_found_findLoops (h₁.leads.ready hg) h₁.reached (hkept h₁.functions)
    (fun _ _ => Recovery.leads_structureWhile) hwhile
  have h₂ := h₁.trans hnext
  obtain ⟨w₃, hnext⟩ := exists_found_findLoops (h₂.leads.ready hg) h₂.reached (hkept h₂.functions)
    (fun _ _ => Recovery.leads_structureDoWhile) hdoWhile
  have h₃ := h₂.trans hnext
  obtain ⟨w₄, hnext⟩ := exists_found_findConditionals (h₃.leads.ready hg) h₃.reached (hkept h₃.functions) hconditionals
  have h₄ := h₃.trans hnext
  have hretains := h₄.leads.retains hg.ordered
  have hready := h₄.leads.ready hg
  have hstays {id : ItemId} (hop : (w₄.graph.item id).isOpcodeItem = true) :=
    hretains.opcodeItem? id (hretains.longer.lt_of_isOpcodeItem hop)
  obtain ⟨w₅, hcleared⟩ := exists_cleared_writeJumps hready h₄.reached (hkept h₄.functions) h₄.written
    (fun id hid target htarget => by
      have hop := Item.isOpcodeItem_of_targetPos? htarget
      rw [Item.targetPos?_of_opcodeItem? (hstays hop)] at htarget
      exact hretains.longer.isSome_findPos? hg.ordered hretains.ordered (htargets id
        ((hretains.longer.within_iff hg.ordered hretains.ordered hg.bounds
          (hretains.longer.lt_of_isOpcodeItem hop)).1 hid) target htarget)) h
  refine ⟨w₅, h₄.leads.trans hcleared.leads, hcleared.reached, hcleared.functions.trans h₄.functions, fun _ => ?_,
    fun id hid hjump htarget => ?_⟩
  · refine hcleared.labelled ?_
    rw [h₄.needed]
    exact List.nil_subset _
  · rw [Decompilation.body, hbounds] at hid
    have hop := hretains.opcodeItem? id (Graph.lt_size_of_isOpcodeItem (Item.isOpcodeItem_of_isJump hjump))
    have hwithin : d.graph.Within start stop id := (hg.ordered.mem_between hg.bounds).1 hid
    have hlater := hwithin.mono hretains.longer.order
    exact hcleared.spent id ((hready.ordered.mem_between hready.bounds).2 hlater)
      ((Item.isJump_of_opcodeItem? hop).trans hjump)
      ((congrArg Option.isSome (Item.targetPos?_of_opcodeItem? hop)).trans htarget)

end Pass

end Parley
