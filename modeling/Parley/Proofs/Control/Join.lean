import Parley.Proofs.Control.Subject
set_option autoImplicit false

/-!
# Where a switch is closed

All cases of a switch end with jumps to one place, its join, and the switch is closed in front of the last jump of the
last case.  Behind that line the code goes on where the branch of the last case leads.  This is the join only if nothing
is done when no case applies: what is done then stands behind the switch in the text.
-/

namespace Parley

open Fallible Source

namespace Graph

/-- The first instruction behind a line, those that are passed over apart. -/
structure FirstBehind (g : Graph) (line : ItemId) (passed : List ItemId) (id : ItemId) : Prop where
  instruction : (g.item id).isOpcodeItem = true
  kept : id ∉ passed
  behind : Precedes g.order line id
  first : ∀ other, (g.item other).isOpcodeItem = true → other ∉ passed → Precedes g.order line other →
    other = id ∨ Precedes g.order id other

/-- Behind a line the code goes on at a position. -/
def GoesOn (g : Graph) (line : ItemId) (passed : List ItemId) (pos : UInt16) : Prop :=
  ∃ id, g.FirstBehind line passed id ∧ (g.item id).pos = pos

/-- The first instruction from a position on stands at another one. -/
structure FirstFrom (g : Graph) (start pos : UInt16) : Prop where
  stands : ∃ id, (g.item id).isOpcodeItem = true ∧ (g.item id).pos = pos
  reached : start ≤ pos
  first : ∀ id, (g.item id).isOpcodeItem = true → start ≤ (g.item id).pos → pos ≤ (g.item id).pos

variable {g g' : Graph} {marks : List ItemId} {puts : List Put} {line : ItemId} {passed : List ItemId}
  {start pos : UInt16}

/-- Where the instructions behind a line that are not passed over are those from a position on, the code goes on behind
the line at the first of them. -/
theorem goesOn_iff (h : g.Overlays marks puts g') (hg : g.Sound)
    (hbehind : ∀ id, (g.item id).isOpcodeItem = true →
      ((id ∉ passed ∧ Precedes g'.order line id) ↔ start ≤ (g.item id).pos)) :
    g'.GoesOn line passed pos ↔ g.FirstFrom start pos := by
  have hop {id : ItemId} (hid : id < g.size) : (g'.item id).isOpcodeItem = (g.item id).isOpcodeItem := by
    rw [Item.isOpcodeItem, h.opcodeItem?_eq hid, Item.isOpcodeItem]
  have hold {id : ItemId} (hid : (g'.item id).isOpcodeItem = true) : id < g.size := h.lt_size_of_isOpcodeItem hid
  constructor
  · rintro ⟨id, ⟨hinstruction, hkept, hline, hfirst⟩, rfl⟩
    have hid := hold hinstruction
    rw [hop hid] at hinstruction
    rw [h.pos_eq hid]
    refine ⟨⟨id, hinstruction, rfl⟩, (hbehind id hinstruction).1 ⟨hkept, hline⟩, fun other hother hstart => ?_⟩
    have hotherOld := lt_size_of_isOpcodeItem hother
    obtain ⟨hkeptOther, hlineOther⟩ := (hbehind other hother).2 hstart
    rcases hfirst other ((hop hotherOld).trans hother) hkeptOther hlineOther with rfl | hprecedes
    · exact UInt16.le_refl _
    · have hle := h.ordered.pos_le hprecedes
      rwa [h.pos_eq hid, h.pos_eq hotherOld] at hle
  · rintro ⟨⟨id, hinstruction, rfl⟩, hreached, hfirst⟩
    have hid := lt_size_of_isOpcodeItem hinstruction
    obtain ⟨hkept, hline⟩ := (hbehind id hinstruction).2 hreached
    refine ⟨id, ⟨(hop hid).trans hinstruction, hkept, hline, fun other hother hkeptOther hlineOther => ?_⟩, h.pos_eq hid⟩
    have hotherOld := hold hother
    rw [hop hotherOld] at hother
    have hle := hfirst other hother ((hbehind other hother).1 ⟨hkeptOther, hlineOther⟩)
    by_cases hsame : other = id
    · exact Or.inl hsame
    · refine Or.inr (((hg.ordered.precedes_or hid hotherOld (Ne.symm hsame)).resolve_right fun hbefore => ?_).mono
        h.order)
      exact UInt16.not_le.2 (hg.spaced other id hbefore hother hinstruction) hle

end Graph

namespace CaseChain

variable {g g' : Graph} {marks : List ItemId} {puts : List Put} {subject : String} {join : UInt16}
  {k last : WrittenCase} {cases : List WrittenCase} {closing id : ItemId} {statement : Statement}

/-- Behind a line that is put before the last jump of a chain stand the instructions from where the last case leads. -/
theorem behind_iff (h : CaseChain g subject join k cases last) (hg : g.Ordered) (hoverlays : g.Overlays marks puts g')
    (hclosing : g.Holds g' closing ⟨last.case.exit, statement⟩) (hid : (g.item id).isOpcodeItem = true) :
    (id ∉ cases.flatMap (·.case.exits) ∧ Precedes g'.order closing id) ↔ last.case.next ≤ (g.item id).pos := by
  obtain ⟨behind, hfind, hadjoins⟩ := (h.stands last h.mem_last).ends
  have hidOld := Graph.lt_size_of_isOpcodeItem hid
  have hexitBelow := hg.pos_lt_findPos? hfind hadjoins.precedes
  constructor
  · rintro ⟨hkept, hbehind⟩
    have hne : id ≠ last.case.exit := by
      rintro rfl
      exact hkept (List.mem_flatMap.2 ⟨last, h.mem_last, List.mem_cons_self⟩)
    rcases precedes_total ((hg.mem_order id).2 hidOld) hadjoins.precedes.left_mem hne with hbefore | hafter
    · exact ((hclosing.behind id hbefore).asymm hoverlays.ordered.nodup hbehind).elim
    · have hpos := (hg.of_findPos? hfind).2
      rcases hadjoins.eq_or_precedes_right hg.nodup hafter with rfl | hafter
      · exact UInt16.le_of_eq hpos.symm
      · exact hpos ▸ hg.pos_le hafter
  · intro hreached
    refine ⟨fun hpassed => ?_, ?_⟩
    · obtain ⟨k', hk', hexit⟩ := List.mem_flatMap.1 hpassed
      have hbelow := h.pos_lt_next hg k' hk' id (by simp [WrittenCase.marks, hexit])
      exact UInt16.not_le.2 hbelow hreached
    · have hafter := hg.precedes_of_pos_lt (hg.lt_of_mem hadjoins.precedes.left_mem) hidOld
        (UInt16.lt_of_lt_of_le hexitBelow hreached)
      exact hclosing.before.trans hoverlays.ordered.nodup (hafter.mono hoverlays.order)

end CaseChain

/-- Where the text goes on behind a switch.  All jumps that are consumed with its cases, each of which shows one `break;`,
lead to one place, the join, and the switch is closed in front of the last jump of the last case.  Behind that line the
code goes on at the join exactly if no instruction stands from where the branch of the last case leads up to the join. -/
theorem switch_goesOn {image : Image} {strings : List String} {options : NamingOptions} {phases : List Phase}
    {d : Decompilation} (hd : d = runPhases phases (.ofImage image strings options)) {func : Nat} {tried : List ItemId}
    {first : ItemId} {subject : String} {case : SwitchCase}
    (hopened : ((d.triedSwitches func tried).item first).isOpenExpression = true)
    (hswitch : (d.triedSwitches func tried).switchAt? first (d.bounds func).2 = some (subject, case)) :
    ∃ k cases last, k.condition = first ∧ k.case = case ∧
      CaseChain (d.triedSwitches func tried) subject case.join k cases last ∧
      (d.triedSwitches func tried).Overlays (first :: cases.flatMap (·.marks)) (switchPuts subject first cases last)
        (d.triedSwitches func (tried ++ [first])) ∧
      (∀ k' ∈ cases, ∀ id ∈ k'.case.exits, (d.triedSwitches func tried).openTarget? id .jmp = some case.join ∧
        ((d.triedSwitches func (tried ++ [first])).item id).processed = true) ∧
      ∃ closing, (d.triedSwitches func tried).Holds (d.triedSwitches func (tried ++ [first])) closing
          ⟨last.case.exit, ⟨closingLine "end-switch", .closes .switch⟩⟩ ∧
        ((d.triedSwitches func (tried ++ [first])).GoesOn closing (cases.flatMap (·.case.exits)) case.join ↔
          (d.triedSwitches func tried).FirstFrom last.case.next case.join) := by
  obtain ⟨k, cases, last, hcondition, hcase, hchain, hoverlays⟩ := Decompilation.exists_chain hd hopened hswitch
  have hsound := Decompilation.sound_triedSwitches hd func tried
  refine ⟨k, cases, last, hcondition, hcase, hchain, hoverlays, fun k' hk' id hid => ?_, ?_⟩
  · have hopen := (hchain.stands k' hk').exits id hid
    refine ⟨hopen, (hoverlays.processed_iff (Graph.lt_size_of_openTarget? hopen)).2 (Or.inr ?_)⟩
    exact List.mem_cons_of_mem _ (List.mem_flatMap.2 ⟨k', hk', by simp [WrittenCase.marks, hid]⟩)
  · have hclosing := hoverlays.put _ _ (List.getElem?_concat_length
      (l := ⟨first, ⟨openingLine "switch" subject, .opens .switch⟩⟩ :: cases.flatMap (·.puts)))
    exact ⟨_, hclosing, Graph.goesOn_iff hoverlays hsound fun id hid =>
      hchain.behind_iff hsound.ordered hoverlays hclosing hid⟩

/-- Where nothing is done if no case applies, the code goes on at the join behind the switch. -/
theorem switch_goesOn_twoCases :
    ∃ d case k cases last closing, d = runPhases phasesBeforeSwitches (.ofImage (twoCases [] [] 27) [] ⟨false, .empty⟩) ∧
      (d.triedSwitches 0 []).switchAt? 31 (d.bounds 0).2 = some ("local_1", case) ∧
      CaseChain (d.triedSwitches 0 []) "local_1" case.join k cases last ∧
      (d.triedSwitches 0 []).Holds (d.triedSwitches 0 [31]) closing
        ⟨last.case.exit, ⟨closingLine "end-switch", .closes .switch⟩⟩ ∧
      (d.triedSwitches 0 [31]).GoesOn closing (cases.flatMap (·.case.exits)) case.join := by
  obtain ⟨d, hd⟩ : ∃ d, d = runPhases phasesBeforeSwitches (.ofImage (twoCases [] [] 27) [] ⟨false, .empty⟩) := ⟨_, rfl⟩
  have hfound : ((d.triedSwitches 0 []).item 31).isOpenExpression = true ∧
      ((d.triedSwitches 0 []).switchAt? 31 (d.bounds 0).2).map (fun found => (found.1, found.2.join)) =
        some ("local_1", 27) ∧
      (d.triedSwitches 0 [31]).size = (d.triedSwitches 0 []).size + 6 ∧
      (∀ id ∈ List.range (d.triedSwitches 0 []).size, ((d.triedSwitches 0 []).item id).isOpenExpression = true →
        5 ≤ ((d.triedSwitches 0 []).item id).pos ∧ (5 < ((d.triedSwitches 0 []).item id).pos →
          ∀ branch ∈ List.range (d.triedSwitches 0 []).size, Precedes (d.triedSwitches 0 []).order id branch →
            ((d.triedSwitches 0 []).openTarget? branch .beq).getD 27 = 27)) ∧
      ((d.triedSwitches 0 []).item 18).isOpcodeItem = true ∧ ((d.triedSwitches 0 []).item 18).pos = 27 := by
    rw [hd]
    decide +kernel
  obtain ⟨hopened, hsubject, hsize, htests, hinstruction, hpos⟩ := hfound
  obtain ⟨⟨subject, case⟩, hswitch, hpair⟩ := Option.map_eq_some_iff.1 hsubject
  obtain ⟨rfl, hjoin⟩ := Prod.mk.inj hpair
  obtain ⟨k, cases, last, hcondition, -, hchain, hoverlays, -, closing, hclosing, hgoesOn⟩ :=
    switch_goesOn hd hopened hswitch
  refine ⟨d, case, k, cases, last, closing, hd, hswitch, hchain, hclosing, hgoesOn.2 ?_⟩
  -- There are two cases, and the branch of the second one leads to the join.
  have hlength : cases.length = 2 := by
    have hputs := hoverlays.size.symm.trans hsize
    rw [length_switchPuts] at hputs
    omega
  have hnext : last.case.next = 27 := by
    have htested {k' : WrittenCase} (hk' : k' ∈ cases) := htests k'.condition
      (List.mem_range.2 (Graph.bare_of_isOpenExpression (hchain.stands k' hk').opened).1) (hchain.stands k' hk').opened
    have hlast := hchain.stands last hchain.mem_last
    have hlater : 5 < ((d.triedSwitches 0 []).item last.condition).pos :=
      UInt16.lt_of_le_of_lt (htested hchain.mem_first).1
        (hchain.pos_lt_last (Decompilation.sound_triedSwitches hd 0 []).ordered (by omega))
    have htarget := (htested hchain.mem_last).2 hlater last.case.branch
      (List.mem_range.2 (Graph.lt_size_of_openTarget? hlast.branch)) hlast.tests
    rwa [hlast.branch, Option.getD_some] at htarget
  rw [hnext, show case.join = 27 from hjoin]
  exact ⟨⟨18, hinstruction, hpos⟩, UInt16.le_refl _, fun id _ hreached => hreached⟩

/-- Where something is done if no case applies, it stands behind the switch in the text. -/
theorem not_goesOn_defaultCase :
    (∃ d, Pass.decompile (.ofImage (twoCases [] [⟨.exitOp, none⟩] 28) [] ⟨false, .empty⟩) = .ok () d ∧
      d.graph.liveStatements.map (·.text) = ["void start() // referenced 1 times", openBrace, "int local_1;",
        "switch (local_1) " ++ openBrace, "case 1:", "exit;", "break;", "case 2:", "exit;", "break;",
        closeBrace ++ " // end-switch", "exit;", closeBrace ++ " // end-function", ""]) ∧
    ∃ d case, d = runPhases phasesBeforeSwitches (.ofImage (twoCases [] [⟨.exitOp, none⟩] 28) [] ⟨false, .empty⟩) ∧
      (d.triedSwitches 0 []).switchAt? 33 (d.bounds 0).2 = some ("local_1", case) ∧ case.join = 28 ∧
      ((d.triedSwitches 0 [33]).item 40).statement? = some ⟨closingLine "end-switch", .closes .switch⟩ ∧
      ∀ passed, (∀ id ∈ passed, ((d.triedSwitches 0 [33]).item id).isOpcode .jmp = true) →
        ¬ (d.triedSwitches 0 [33]).GoesOn 40 passed 28 := by
  constructor
  · obtain ⟨d, hrun, hlines⟩ := decompilesTo_iff.1 (show decompilesTo (twoCases [] [⟨.exitOp, none⟩] 28) (fun d =>
      d.graph.liveStatements.map (·.text) = ["void start() // referenced 1 times", openBrace, "int local_1;",
        "switch (local_1) " ++ openBrace, "case 1:", "exit;", "break;", "case 2:", "exit;", "break;",
        closeBrace ++ " // end-switch", "exit;", closeBrace ++ " // end-function", ""]) = true by decide +kernel)
    exact ⟨d, hrun, of_decide_eq_true hlines⟩
  · obtain ⟨d, hd⟩ : ∃ d, d = runPhases phasesBeforeSwitches (.ofImage (twoCases [] [⟨.exitOp, none⟩] 28) []
      ⟨false, .empty⟩) := ⟨_, rfl⟩
    have hfound : ((d.triedSwitches 0 []).switchAt? 33 (d.bounds 0).2).map (fun found => (found.1, found.2.join)) =
          some ("local_1", 28) ∧
        ((d.triedSwitches 0 [33]).item 40).statement? = some ⟨closingLine "end-switch", .closes .switch⟩ ∧
        (((d.triedSwitches 0 [33]).item 18).isOpcodeItem = true ∧
          ((d.triedSwitches 0 [33]).item 18).isOpcode .jmp = false ∧
          Precedes (d.triedSwitches 0 [33]).order 40 18) ∧
        ∀ id ∈ List.range (d.triedSwitches 0 [33]).size, ((d.triedSwitches 0 [33]).item id).pos = 28 →
          18 ≠ id ∧ ¬ Precedes (d.triedSwitches 0 [33]).order id 18 := by
      rw [hd]
      decide +kernel
    obtain ⟨hsubject, hclosing, ⟨hinstruction, hjump, hbehind⟩, hlater⟩ := hfound
    obtain ⟨⟨subject, case⟩, hswitch, hpair⟩ := Option.map_eq_some_iff.1 hsubject
    obtain ⟨rfl, hjoin⟩ := Prod.mk.inj hpair
    refine ⟨d, case, hd, hswitch, hjoin, hclosing, ?_⟩
    rintro passed hpassed ⟨id, hfirst, hpos⟩
    have hkept : 18 ∉ passed := fun hmem => by
      rw [hpassed 18 hmem] at hjump
      cases hjump
    obtain ⟨hne, hnot⟩ := hlater id (List.mem_range.2 (Graph.lt_size_of_isOpcodeItem hfirst.instruction)) hpos
    exact (hfirst.first 18 hinstruction hkept hbehind).elim hne hnot

end Parley
