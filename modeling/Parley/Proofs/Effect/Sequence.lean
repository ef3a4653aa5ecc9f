import Parley.Proofs.Effect.Causation
import Parley.Proofs.Effect.Composition
import Parley.Proofs.Source.Tree
set_option autoImplicit false

/-!
# The sequence of effects

Statements show effects in the order of the instructions that cause them, but for calls whose pushed results wait
on the stack: such a call is shown where its result is used, and that may be behind a statement that has been made
in between.  Then the call comes before all effects of that statement.
-/

namespace Parley

open Fallible Source

/-- Whether the item is a call whose result is pushed. -/
def Item.isPushingCall (item : Item) : Bool :=
  item.operation?.any fun operation => operation.isCall && operation.yieldsExpression

/-- An operation with an effect that leaves an expression is a call that says so. -/
theorem Operation.isCall_of_hasEffect {operation : Operation} (heffect : operation.hasEffect = true)
    (hleaves : operation.leavesExpression = true) :
    (operation.isCall && operation.yieldsExpression) = true := by
  unfold hasEffect at heffect
  unfold leavesExpression at hleaves
  unfold isCall
  cases hopcode : operation.opcode <;> simp_all

theorem Item.hasEffect_of_operation? {item : Item} {operation : Operation} (h : item.operation? = some operation)
    (heffect : item.effect?.isSome = true) : operation.hasEffect = true := by
  unfold operation? at h
  unfold effect? at heffect
  cases hkind : item.kind <;> simp_all

namespace Decompilation

variable {d d₁ d' : Decompilation} {func base : Nat} {turns done : List Turn} {s s' e e' : ItemId}

/-- What a turn leaves is new. -/
theorem Combines.size_le_result (h : Combines func d turns d') {t : Turn} (ht : t ∈ turns) :
    d.graph.size ≤ t.result := by
  induction h with
  | done d => cases ht
  | turn run h rest ih =>
    rcases List.mem_cons.1 ht with rfl | ht
    · exact Nat.le_of_eq h.result.symm
    · exact Nat.le_trans h.advances.grows.size (ih ht)

/-- A statement shows an effect: it is the item that shows it, or it is made of an operation that does. -/
def Appears (turns : List Turn) (s e : ItemId) : Prop := e = s ∨ Part turns s e

/-- A statement shows the effect of the instruction `c`, where `e` is the item put before that. -/
structure Shows (d : Decompilation) (turns : List Turn) (s e c : ItemId) : Prop where
  appears : Appears turns s e
  causes : d.graph.Causes c e

namespace Arranged

section

variable (h : Arranged base done d)

include h

/-- An operation that has had its turn is none of the statements. -/
theorem ne_of_statement? (hs : (d.graph.item s).statement?.isSome = true) {t : Turn} (ht : t ∈ done) : s ≠ t.id := by
  rintro rfl
  have hoperation := (h.made t ht).1
  unfold Item.operation? at hoperation
  unfold Item.statement? at hs
  cases hkind : (d.graph.item t.id).kind <;> simp_all

/-- A statement that is made of anything has been left by a turn. -/
theorem exists_turn (hs : (d.graph.item s).statement?.isSome = true) (hpart : Part done s e) :
    ∃ t ∈ done, t.result = s ∧ t.operation.leavesExpression = false := by
  obtain ⟨t, ht, rfl⟩ := hpart.exists_result
  refine ⟨t, ht, rfl, ?_⟩
  rwa [(h.made t ht).2.2, Bool.not_eq_true'] at hs

/-- What a later statement is made of comes after a statement that has been there before, apart from expressions
that have waited. -/
theorem precedes_part (hs : (d.graph.item s).statement?.isSome = true) (hss' : Precedes d.graph.order s s')
    (hpart : Part done s' e') : Precedes d.graph.order s e' ∨
      (∃ u ∈ done, u.id = e' ∧ u.operation.leavesExpression = true) ∧ Precedes d.graph.order e' s := by
  have hnodup := h.sound.ordered.nodup
  have hid {t : Turn} (ht : t ∈ done) (hresult : t.result = s') : Precedes d.graph.order s t.id :=
    hss'.trans hnodup (hresult ▸ h.placed t ht)
  generalize hstatement : s' = x at hpart
  cases hpart with
  | own ht => exact Or.inl (hid ht hstatement.symm)
  | @operand t y _ ht hy hpart =>
    obtain ⟨u, hu, rfl, hleaves⟩ := h.leavesExpression_of_part hpart (h.operands t ht y hy).2
    have hmem := (h.placed u hu).right_mem
    exact (precedes_total hss'.left_mem hmem (h.ne_of_statement? hs hu)).imp_right fun hbefore =>
      ⟨⟨u, hu, rfl, hleaves⟩, hbefore⟩

/-- What a statement is made of comes before a later statement that has been there before. -/
theorem part_precedes (hs : (d.graph.item s).statement?.isSome = true)
    (hs' : (d.graph.item s').statement?.isSome = true) (hlt : s' < base) (hss' : Precedes d.graph.order s s')
    (hpart : Part done s e) : Precedes d.graph.order e s' := by
  have hnodup := h.sound.ordered.nodup
  obtain ⟨t, ht, rfl, hleaves⟩ := h.exists_turn hs hpart
  have hid : Precedes d.graph.order t.id s' := by
    refine (precedes_total (h.placed t ht).right_mem hss'.right_mem (h.ne_of_statement? hs' ht).symm).resolve_right
      fun hbefore => ?_
    exact hss'.asymm hnodup (h.others s' hlt hs' t ht hleaves hbefore)
  rcases h.within t ht e hpart with rfl | hwithin
  · exact hid
  · exact hwithin.trans hnodup hid

/-- What two statements are made of is in the order of the statements, apart from expressions that have waited. -/
theorem part_precedes_part (hids : (done.map (·.id)).Nodup) (hs : (d.graph.item s).statement?.isSome = true)
    (hs' : (d.graph.item s').statement?.isSome = true) (hss' : Precedes d.graph.order s s')
    (hpart : Part done s e) (hpart' : Part done s' e') : Precedes d.graph.order e e' ∨
      (∃ u ∈ done, u.id = e' ∧ u.operation.leavesExpression = true) ∧
        ∀ o, Part done s o → Precedes d.graph.order e' o := by
  have hnodup := h.sound.ordered.nodup
  obtain ⟨t, ht, rfl, hleaves⟩ := h.exists_turn hs hpart
  obtain ⟨t', ht', rfl, hleaves'⟩ := h.exists_turn hs' hpart'
  have hne : t.id ≠ t'.id := fun heq => by
    rw [List.inj_on_of_nodup_map hids ht ht' heq] at hss'
    exact hss'.irrefl hnodup
  have hid : Precedes d.graph.order t.id t'.id := by
    refine (precedes_total (h.placed t ht).right_mem (h.placed t' ht').right_mem hne).resolve_right fun hbefore => ?_
    exact hss'.asymm hnodup (h.statements t' ht' t ht hleaves' hleaves hbefore)
  exact h.waiting t ht t' ht' hleaves hleaves' hid e e' hpart hpart'

/-- Effects are shown in the order of their items, apart from calls that have waited. -/
theorem appears_precedes (hids : (done.map (·.id)).Nodup) (hresults : ∀ t ∈ done, base ≤ t.result)
    (hs : (d.graph.item s).statement?.isSome = true) (hs' : (d.graph.item s').statement?.isSome = true)
    (hss' : Precedes d.graph.order s s') (he : e < base) (he' : e' < base) (happears : Appears done s e)
    (happears' : Appears done s' e') : Precedes d.graph.order e e' ∨
      (∃ u ∈ done, u.id = e' ∧ u.operation.leavesExpression = true) ∧
        ∀ o < base, Appears done s o → Precedes d.graph.order e' o := by
  -- A statement is either older than the turns, and shows nothing but itself, or has been left by one of them.
  have hold {x o : ItemId} (hx : x < base) (hpart : Part done x o) : False := by
    obtain ⟨t, ht, rfl⟩ := hpart.exists_result
    exact Nat.not_lt_of_le (hresults t ht) hx
  rcases happears with rfl | hpart <;> rcases happears' with rfl | hpart'
  · exact Or.inl hss'
  · refine (h.precedes_part hs hss' hpart').imp_right fun ⟨hwaits, hbefore⟩ => ⟨hwaits, fun o _ ho => ?_⟩
    rcases ho with rfl | ho
    · exact hbefore
    · exact (hold he ho).elim
  · exact Or.inl (h.part_precedes hs hs' he' hss' hpart)
  · refine (h.part_precedes_part hids hs hs' hss' hpart hpart').imp_right fun ⟨hwaits, hbefore⟩ =>
      ⟨hwaits, fun o ho happears => ?_⟩
    rcases happears with rfl | ho'
    · exact (hold ho hpart).elim
    · exact hbefore o ho'

end

end Arranged

/-- When all operations of a function have had their turns, its statements show effects in the order of the
instructions, apart from calls that have waited. -/
theorem Combines.shows_in_order {g : Graph} {c c' : ItemId} (h : Combines func d turns d') (hd : d.graph.Sound)
    (hids : d.openOperations func = turns.map (·.id)) (hg : g.Ordered) (hlater : d'.graph.order.Sublist g.order)
    (hs : (d'.graph.item s).statement?.isSome = true) (hs' : (d'.graph.item s').statement?.isSome = true)
    (hss' : Precedes g.order s s') (hshows : d.Shows turns s e c) (hshows' : d.Shows turns s' e' c') :
    (d.graph.item c).pos < (d.graph.item c').pos ∨ (d.graph.item e').isPushingCall = true ∧
      ∀ e c, d.Shows turns s e c → (d.graph.item c').pos < (d.graph.item c).pos := by
  have hadvances := h.advances hd
  have hsub : (turns.map (·.id)).Sublist d.graph.order := hids ▸ d.sublist_openOperations func
  have harranged : Arranged d.graph.size turns d' := (Arranged.start hd).combines h hsub
  have hmem {id : ItemId} (hid : (d'.graph.item id).statement?.isSome = true) : id ∈ d'.graph.order :=
    (harranged.sound.ordered.mem_order id).2 (Graph.lt_size_of_kind fun hkind => by simp [Item.statement?, hkind] at hid)
  -- The order of the effects is that of the listing before the turns, where their causes are.
  have hpos {e c e' c' : ItemId} (hcause : d.graph.Causes c e) (hcause' : d.graph.Causes c' e')
      (hee' : Precedes d'.graph.order e e') : (d.graph.item c).pos < (d.graph.item c').pos :=
    hcause.pos_lt hcause' hd (hee'.of_sublist harranged.sound.ordered.nodup hadvances.grows.order
      (hcause.precedes hd.ordered).left_mem (hcause'.precedes hd.ordered).left_mem)
  have hlt {e c : ItemId} (hcause : d.graph.Causes c e) : e < d.graph.size := Graph.lt_size_of_effect? hcause.isEffect
  rcases harranged.appears_precedes (hd.ordered.nodup.sublist hsub) (fun t ht => h.size_le_result ht) hs hs'
    (hss'.of_sublist hg.nodup hlater (hmem hs) (hmem hs')) (hlt hshows.causes) (hlt hshows'.causes)
    hshows.appears hshows'.appears with hbefore | ⟨⟨u, hu, rfl, hleaves⟩, hbefore⟩
  · exact Or.inl (hpos hshows.causes hshows'.causes hbefore)
  · refine Or.inr ⟨?_, fun e c hshows => hpos hshows'.causes hshows.causes
      (hbefore e (hlt hshows.causes) hshows.appears)⟩
    have hoperation := (hadvances.grows.kept u.id (hlt hshows'.causes)).operation?.symm.trans (harranged.made u hu).1
    rw [Item.isPushingCall, hoperation]
    exact Operation.isCall_of_hasEffect (Item.hasEffect_of_operation? hoperation hshows'.causes.isEffect) hleaves

end Decompilation

/-- How a function is taken apart: it is analyzed, and then its operations take their turns. -/
structure Decompilation.Composes (d : Decompilation) (func : Nat) (d₁ : Decompilation) (turns : List Turn)
    (d₂ : Decompilation) : Prop where
  analyzed : ∃ callees, Pass.analyze func d = .ok callees d₁
  combined : Pass.combine func d₁ = .ok () d₂
  combines : d₁.Combines func turns d₂
  ids : d₁.openOperations func = turns.map (·.id)

/-- A function that is decompiled is taken apart, and then come more phases. -/
theorem composes_decompileFunction {image : Image} {strings : List String} {options : NamingOptions}
    {phases : List Phase} {func : Nat} {callees : List Nat} {d' : Decompilation}
    (h : Pass.decompileFunction func (runPhases phases (.ofImage image strings options)) = .ok callees d') :
    ∃ d₁ turns d₂, (runPhases phases (.ofImage image strings options)).Composes func d₁ turns d₂ ∧ d₁.Well ∧
      d₂.Onward d' := by
  have hd := ((Decompilation.well_ofImage image strings options).runPhases phases).well
  have hd₁ := (hd.analyze func).well
  have hzero := expression?_zero_runPhases image strings options (phases ++ [.analysis func])
  rw [runPhases_append] at hzero
  generalize runPhases phases (.ofImage image strings options) = d at *
  change ((final (Pass.analyze func d)).graph.item 0).expression? = none at hzero
  obtain ⟨called, d₁, hanalyze, hrest⟩ := bind_eq_ok.1 h
  obtain ⟨_, d₂, hcombine, hrest⟩ := bind_eq_ok.1 hrest
  rw [hanalyze, final_ok] at hd₁ hzero
  obtain ⟨later, hlater⟩ := ((Pass.phased_structureFunction func).bind fun _ =>
    (Pass.phased_addSignature func).bind fun _ => Pass.phased_pure called) d₂
  rw [hrest, final_ok] at hlater
  have hcombined := Pass.combined_combine hd₁ func hzero
  rw [hcombine] at hcombined
  cases hcombined with
  | done hturns hids =>
    have hd₂ := (hd₁.quiet (hturns.advances hd₁.sound)).well
    exact ⟨d₁, _, d₂, ⟨⟨called, hanalyze⟩, hcombine, hturns, hids⟩, hd₁, hlater ▸ hd₂.runPhases later⟩

/-- Decompilation keeps the order of effects.  Let a function be decompiled behind any phases.  Each effect that
its analysis has put into the listing is caused by an instruction.  Whatever phases come later, if one statement
stands before another, the instruction that causes an effect of the first stands in the code before the one that
causes an effect of the second.  Otherwise the latter is a call whose pushed result waits while the first statement
is made, and then it stands before all that causes an effect of the first. -/
theorem effects_in_order (image : Image) (strings : List String) (options : NamingOptions)
    (phases : List Phase) (func : Nat) {callees : List Nat} {d' : Decompilation}
    (h : Pass.decompileFunction func (runPhases phases (.ofImage image strings options)) = .ok callees d') :
    let d := runPhases phases (.ofImage image strings options)
    ∃ d₁ turns d₂, d.Composes func d₁ turns d₂ ∧
      (∀ e, d.graph.size ≤ e → (d₁.graph.item e).effect?.isSome = true → ∃ c, d₁.graph.Causes c e) ∧
      ∀ more s s', (d₂.graph.item s).statement?.isSome = true → (d₂.graph.item s').statement?.isSome = true →
        Precedes (runPhases more d').graph.order s s' →
        ∀ e c e' c', d₁.Shows turns s e c → d₁.Shows turns s' e' c' →
          (d₁.graph.item c).pos < (d₁.graph.item c').pos ∨ (d₁.graph.item e').isPushingCall = true ∧
            ∀ e c, d₁.Shows turns s e c → (d₁.graph.item c').pos < (d₁.graph.item c).pos := by
  intro d
  have hd : d.Well := ((Decompilation.well_ofImage image strings options).runPhases phases).well
  obtain ⟨d₁, turns, d₂, hcomposes, hd₁, honward⟩ := composes_decompileFunction h
  have htraced := Pass.traced_analyze hd.sound func
  obtain ⟨called, hanalyze⟩ := hcomposes.analyzed
  rw [hanalyze, final_ok] at htraced
  refine ⟨d₁, turns, d₂, hcomposes, htraced.causes, fun more s s' hs hs' hss' e c e' c' => ?_⟩
  have hmore := honward.trans (honward.well.runPhases more)
  exact hcomposes.combines.shows_in_order hd₁.sound hcomposes.ids hmore.well.sound.ordered hmore.longer.order hs hs' hss'

/-! ## A call that waits -/

/-- A function that calls another one, stores into a local variable, and returns what the call has pushed. -/
def earlyCall : Image := .ofCode (encode (prologueCode 2 ++
  ([⟨.call, some 18⟩, ⟨.pushReg, none⟩, ⟨.pushiEff, some 1⟩, ⟨.pushi, some 5⟩, ⟨.sto, none⟩, ⟨.saveReg, none⟩,
    ⟨.pop, none⟩] ++ epilogueCode) ++ functionCode 0 [.return (.const 7)])).toArray

/-- The functions of the image have been found. -/
def earlyCallFound : Decompilation :=
  runPhases [.references, .discovery, .relabeling] (.ofImage earlyCall [] ⟨false, .empty⟩)

/-- The store is an effect of one statement, and the call, which stands before it in the code, is one of another. -/
theorem shows_earlyCall {d₁ d₂ : Decompilation} {turns : List Turn}
    (h : earlyCallFound.Composes 0 d₁ turns d₂) :
    d₁.Shows turns 34 31 8 ∧ d₁.Shows turns 35 28 4 ∧ (d₁.graph.item 4).pos < (d₁.graph.item 8).pos := by
  have hfound : earlyCallFound.Well := ((Decompilation.well_ofImage earlyCall [] ⟨false, .empty⟩).runPhases _).well
  have hwell := (hfound.analyze 0).well
  obtain ⟨callees, d, hanalyze, hlisting⟩ := succeedsWith_iff.1 (show succeedsWith (fun _ d =>
    d.openOperations 0 = [28, 31, 32] ∧ d.graph.size = 33 ∧
      Decompilation.operandsInTurn 0 [28, 31, 32] d = [[], [30, 29], [33]] ∧
      (∀ entry ∈ ([(4, 28), (8, 31)] : List (ItemId × ItemId)), (d.graph.item entry.2).effect?.isSome = true ∧
        (d.graph.item entry.1).opcode? = (d.graph.item entry.2).effect? ∧
        (d.graph.item entry.1).processed = true ∧ d.graph.next? entry.2 = some entry.1) ∧
      (d.graph.item 4).pos < (d.graph.item 8).pos)
    (Pass.analyze 0 earlyCallFound) = true by decide +kernel)
  obtain ⟨hids, hsize, hoperands, hplaces, hpos⟩ := of_decide_eq_true hlisting
  rw [hanalyze, final_ok] at hwell
  obtain ⟨_, hanalyzed⟩ := h.analyzed
  cases hanalyze.symm.trans hanalyzed
  have hcauses (c e : ItemId) (hentry : (c, e) ∈ ([(4, 28), (8, 31)] : List (ItemId × ItemId))) :
      d₁.graph.Causes c e := by
    obtain ⟨heffect, hopcode, hreplaced, hnext⟩ := hplaces (c, e) hentry
    exact Graph.causes_of_next? hwell.sound.ordered heffect hopcode hreplaced hnext
  have hturns : turns.map (·.id) = [28, 31, 32] := h.ids.symm.trans hids
  have hoperands := h.combines.operands_eq.trans (hturns ▸ hoperands)
  have hresults := hsize ▸ h.combines.results_eq
  obtain ⟨call, store, last, rfl⟩ : ∃ call store last, turns = [call, store, last] := by
    have hlength := congrArg List.length hturns
    rw [List.length_map] at hlength
    exact List.length_eq_three.1 hlength
  replace hresults : [call.result, store.result, last.result] = [33, 34, 35] := hresults
  simp only [List.map_cons, List.map_nil, List.cons.injEq, and_true] at hturns hoperands hresults
  have hfirst : Part [call, store, last] 33 28 := hresults.1 ▸ hturns.1 ▸ .own List.mem_cons_self
  have hsecond : Part [call, store, last] 34 31 := hresults.2.1 ▸ hturns.2.1 ▸ .own (by simp)
  -- What the call has left is the operand of the return.
  have hthird : Part [call, store, last] 35 28 := by
    rw [← hresults.2.2]
    exact .operand (by simp) (hoperands.2.2 ▸ List.mem_singleton_self 33) hfirst
  exact ⟨⟨Or.inr hsecond, hcauses 8 31 (by simp)⟩, ⟨Or.inr hthird, hcauses 4 28 (by simp)⟩, hpos⟩

theorem statements_earlyCall {d₁ d₂ : Decompilation} {turns : List Turn}
    (h : earlyCallFound.Composes 0 d₁ turns d₂) :
    (d₂.graph.item 34).statement?.isSome = true ∧ (d₂.graph.item 35).statement?.isSome = true := by
  obtain ⟨_, d, hcombine, hlisting⟩ := succeedsWith_iff.1 (show succeedsWith (fun _ d =>
    (d.graph.item 34).statement?.isSome && (d.graph.item 35).statement?.isSome)
    ((Pass.analyze 0 >>= fun _ => Pass.combine 0) earlyCallFound) = true by decide +kernel)
  obtain ⟨_, hanalyzed⟩ := h.analyzed
  cases hcombine.symm.trans ((bind_of_ok hanalyzed).trans h.combined)
  exact Bool.and_eq_true_iff.1 hlisting

/-- The call waits while the store is made. -/
theorem effects_in_order_earlyCall :
    ∃ callees d' d₁ turns d₂, Pass.decompileFunction 0 earlyCallFound = .ok callees d' ∧
      earlyCallFound.Composes 0 d₁ turns d₂ ∧ Precedes d'.graph.order 34 35 ∧ d₁.Shows turns 34 31 8 ∧
      d₁.Shows turns 35 28 4 ∧ (d₁.graph.item 28).isPushingCall = true := by
  obtain ⟨callees, d', hfunction, hshown⟩ := succeedsWith_iff.1 (show succeedsWith (fun _ d =>
    Precedes d.graph.order 34 35) (Pass.decompileFunction 0 earlyCallFound) = true by decide +kernel)
  have hprecedes : Precedes d'.graph.order 34 35 := of_decide_eq_true hshown
  obtain ⟨d₁, turns, d₂, hcomposes, -, horder⟩ := effects_in_order earlyCall [] ⟨false, .empty⟩
    [.references, .discovery, .relabeling] 0 hfunction
  obtain ⟨hfirst, hsecond, hpos⟩ := shows_earlyCall hcomposes
  obtain ⟨hstore, hreturn⟩ := statements_earlyCall hcomposes
  have hwaits := horder [] 34 35 hstore hreturn hprecedes 31 8 28 4 hfirst hsecond
  exact ⟨callees, d', d₁, turns, d₂, hfunction, hcomposes, hprecedes, hfirst, hsecond,
    (hwaits.resolve_left (UInt16.lt_asymm hpos)).1⟩

/-- The call stands in the code before the store, but is shown behind it. -/
theorem earlyCall_shown_late :
    ∃ d' d₁ turns d₂ s s' e c e' c', Pass.decompile (.ofImage earlyCall [] ⟨false, .empty⟩) = .ok () d' ∧
      ((d'.graph.item s).processed = false ∧ (d'.graph.item s).statement? = some (.plain "local_1 = 5;")) ∧
      ((d'.graph.item s').processed = false ∧
        (d'.graph.item s').statement? = some (.plain "return func_0012();")) ∧
      Precedes d'.graph.order s s' ∧ earlyCallFound.Composes 0 d₁ turns d₂ ∧ d₁.Shows turns s e c ∧
      d₁.Shows turns s' e' c' ∧ (d₁.graph.item c').pos < (d₁.graph.item c).pos := by
  obtain ⟨d', hdecompile, hshown⟩ := decompilesTo_iff.1 (show decompilesTo earlyCall (fun d =>
    ((d.graph.item 34).processed = false ∧ (d.graph.item 34).statement? = some (.plain "local_1 = 5;")) ∧
      ((d.graph.item 35).processed = false ∧
        (d.graph.item 35).statement? = some (.plain "return func_0012();")) ∧
      Precedes d.graph.order 34 35) = true by decide +kernel)
  obtain ⟨hstore, hreturn, hprecedes⟩ := of_decide_eq_true hshown
  obtain ⟨_, _, hfunction, -⟩ := succeedsWith_iff.1 (show succeedsWith (fun _ _ => true)
    (Pass.decompileFunction 0 earlyCallFound) = true by decide +kernel)
  obtain ⟨d₁, turns, d₂, hcomposes, -⟩ := composes_decompileFunction hfunction
  obtain ⟨hfirst, hsecond, hpos⟩ := shows_earlyCall hcomposes
  exact ⟨d', d₁, turns, d₂, 34, 35, 31, 8, 28, 4, hdecompile, hstore, hreturn, hprecedes, hcomposes, hfirst,
    hsecond, hpos⟩

end Parley
