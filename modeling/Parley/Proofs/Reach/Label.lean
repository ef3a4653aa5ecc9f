import Parley.Proofs.Decompile.Phase
set_option autoImplicit false

/-!
# What calls are labelled

A call is labelled with the name of the function that it enters, or with whatever label stands where it leads.
No label begins like that of a call that leads nowhere, unless a name was given that does.
-/

namespace Parley

open Fallible

/-! ## Names -/

/-- A name is not taken for the label of a call that leads nowhere. -/
def Leading (name : String) : Prop := beginsWith "invalid_" name = false

theorem leading_append {mark : String} {c : Char} (hmark : mark.toList.head? = some c) (hc : c ≠ 'i')
    (rest : String) : Leading (mark ++ rest) := by
  obtain ⟨behind, hmark⟩ := List.head?_eq_some_iff.1 hmark
  rw [Leading, beginsWith, String.toList_append, hmark]
  exact Bool.and_eq_false_imp.2 fun hsame => absurd (beq_iff_eq.1 hsame).symm hc

theorem leading_labelName (pos : UInt16) : Leading (labelName pos) :=
  leading_append (c := 'l') rfl (by decide) _

theorem leading_startFunction : Leading startFunction := rfl

/-- Functions are called by other names unless one was given. -/
theorem leading_functionName {options : NamingOptions}
    (hnames : ∀ pos name, options.functionNames.get? pos = some name → Leading name) (pos : UInt16) :
    Leading (options.functionName pos) := by
  have hknown : (wellKnownFunctions.all fun entry => beginsWith "invalid_" entry.2 == false) = true := by
    decide +kernel
  unfold NamingOptions.functionName
  split
  · rename_i name hname
    exact hnames pos name hname
  · split
    · rename_i name hname
      split at hname
      · obtain ⟨front, behind, hsplit, -⟩ := List.lookup_eq_some_iff.1 hname
        exact beq_iff_eq.1 (List.all_eq_true.1 hknown (pos, name) (by rw [hsplit]; simp))
      · cases hname
    · exact leading_append (c := 'f') rfl (by decide) _

/-! ## Labels -/

/-- All labels of a listing are those of places that calls can lead to. -/
def Graph.Labelled (g : Graph) : Prop := ∀ id label, (g.item id).label = some label → Leading label

namespace Graph

variable {g : Graph}

theorem Labelled.modify (hg : g.Labelled) {f : Item → Item} (id : ItemId)
    (hf : ∀ label, (f (g.item id)).label = some label → (g.item id).label = some label ∨ Leading label) :
    (g.modify id f).Labelled := by
  intro other label hlabel
  rw [item_modify] at hlabel
  split at hlabel
  · exact (hf label hlabel).elim (hg id label) fun h => h
  · exact hg other label hlabel

theorem Labelled.addBoundary (hg : g.Labelled) (site : ItemId) (count : Nat) {boundary : Item}
    (hboundary : ∀ label, boundary.label = some label → Leading label) :
    (Decompilation.addBoundary g site count boundary).Labelled := by
  intro id label hlabel
  have hsame : ((Decompilation.addBoundary g site count boundary).item id).label =
      ((g.insertBefore site boundary).item id).label :=
    markAll_keeps (p := Item.label) (fun _ => rfl) _ _ id
  rw [hsame] at hlabel
  by_cases hid : id = g.size
  · rw [hid, item_insertBefore_new] at hlabel
    exact hboundary label hlabel
  · rw [item_insertBefore_of_ne hid] at hlabel
    exact hg id label hlabel

theorem labelled_ofCode (code : CodeWords) : (ofCode code).Labelled := fun id label hlabel => by
  have hnone : ((ofCode code).item id).label = none :=
    forall_item_ofCode (p := fun item => item.label = none) rfl (fun _ _ => rfl) id
  rw [hnone] at hlabel
  cases hlabel

end Graph

namespace Decompilation

variable {d : Decompilation}

/-- What a decompilation says of names: no label, no function and no name to be given is that of a call that
leads nowhere. -/
structure Named (d : Decompilation) : Prop where
  labels : d.graph.Labelled
  functions : ∀ f ∈ d.frames, Leading f.name
  options : ∀ pos, Leading (d.options.functionName pos)

theorem Named.onGraph (hd : d.Named) {f : Graph → Graph} (h : (f d.graph).Labelled) : (d.onGraph f).Named :=
  ⟨h, hd.functions, hd.options⟩

theorem Named.nameFunction (hd : d.Named) (id : ItemId) (entry : UInt16) :
    Leading (nameFunction d.options entry (d.graph.item id).label) := by
  unfold Decompilation.nameFunction
  split
  · exact leading_startFunction
  · split
    · rename_i label hlabel
      split
      · exact hd.options entry
      · exact hd.labels id label hlabel
    · exact leading_append (c := 'u') rfl (by decide) _

theorem Named.addFunction (hd : d.Named) (entry exit : ItemId) : (d.addFunction entry exit).Named := by
  obtain ⟨info, hadded, hframe⟩ := addFunction_eq d entry exit
  have hname := hd.nameFunction entry (d.graph.item entry).pos
  have hwithout {g : Graph} (hg : g.Labelled) (id : ItemId) : (g.modify id Item.withoutLabel).Labelled :=
    hg.modify id fun label hlabel => by cases hlabel
  have hopened : (openFunction d.graph entry (openingPattern d.graph entry).length
      (Decompilation.nameFunction d.options (d.graph.item entry).pos (d.graph.item entry).label)
      (functionReferences d.graph entry)).Labelled := by
    refine (hwithout (hwithout hd.labels _) _).addBoundary _ _ fun label hlabel => ?_
    rw [← Option.some.inj hlabel]
    exact hname
  rw [hadded]
  refine ⟨(hwithout hopened exit).addBoundary exit _ fun label hlabel => hopened exit label hlabel,
    fun f hf => ?_, hd.options⟩
  rw [frames, Array.toList_push, List.map_append] at hf
  rcases List.mem_append.1 hf with hf | hf
  · exact hd.functions f hf
  · rw [List.mem_singleton.1 hf, hframe]
    exact hname

theorem Named.discoverFrom (hd : d.Named) (fuel : Nat) (cursor : Option ItemId) :
    (discoverFrom fuel cursor d).Named :=
  discoverFrom_of_addFunction (fun _ entry exit h => h.addFunction entry exit) fuel cursor hd

end Decompilation

/-! ## Cross references -/

namespace Pass

open Decompilation

theorem named_modify {d : Decompilation} (hd : d.Named) (id : ItemId) {f : Item → Item}
    (hf : ∀ item, (f item).label = item.label) : (d.onGraph (·.modify id f)).Named :=
  hd.onGraph (hd.labels.modify id fun _ hlabel => Or.inl ((hf _).symm.trans hlabel))

theorem named_referenced {d : Decompilation} (hd : d.Named) (site : ItemId) (target : UInt16) :
    (d.onGraph (·.modify site (·.referenced target))).Named := by
  refine hd.onGraph (hd.labels.modify site fun label hlabel => ?_)
  have hlabel := Option.some.inj hlabel
  split at hlabel
  · exact Or.inr (hlabel ▸ leading_labelName target)
  · cases hold : (d.graph.item site).label with
    | none =>
      rw [hold] at hlabel
      exact Or.inr (hlabel ▸ leading_labelName target)
    | some old =>
      rw [hold] at hlabel
      exact Or.inl (congrArg some hlabel)

theorem named_resolveTarget {d : Decompilation} (hd : d.Named) (id : ItemId) :
    (final (resolveTarget id d)).Named := by
  rw [resolveTarget_apply]
  split
  · rw [importedName_apply]
    cases d.importedFunctions.get? (d.graph.item id).operandOrZero with
    | none => exact hd
    | some item => exact named_modify hd id fun item => Item.label_withTarget item _ _
  · cases (d.graph.item id).leadsTo? with
    | none => exact hd
    | some target =>
      dsimp only
      rw [reference_apply]
      cases d.graph.findPos? target with
      | none => exact hd
      | some site => exact named_modify (named_referenced hd site target) id fun item => Item.label_withTarget item _ _

theorem named_collectReferences {d : Decompilation} (hd : d.Named) :
    (final (collectReferences d)).Named := by
  have hforM (ids : List ItemId) {d : Decompilation} (hd : d.Named) :
      (final (ids.forM resolveTarget d)).Named := by
    induction ids generalizing d with
    | nil => exact hd
    | cons id rest ih =>
      have hstep : Leads (fun d d' : Decompilation => d.Named → d'.Named)
          (resolveTarget id >>= fun _ => rest.forM resolveTarget) d :=
        Leads.bind (fun _ _ _ h h' hd => h' (h hd)) (fun hd => named_resolveTarget hd id) fun _ _ _ => ih
      exact hstep hd
  rw [collectReferences_apply]
  cases d.graph.first? with
  | none => exact hd
  | some first =>
    refine hforM _ (hd.onGraph (hd.labels.modify first fun label hlabel => Or.inr ?_))
    exact Option.some.inj hlabel ▸ leading_startFunction

end Pass

/-! ## Calls -/

namespace Decompilation

variable {d : Decompilation}

/-- A call with an operand is labelled as one that leads somewhere, if it does. -/
def Shown (d : Decompilation) (id : ItemId) : Prop :=
  (d.graph.item id).isOpcode .call = true → ∀ op, (d.graph.item id).opcodeItem? = some op →
    ∀ target, op.operand = some target → target ≠ nowhere → ∀ label, op.targetLabel = some label → Leading label

theorem leading_callLabel (hd : d.Named) {target : UInt16} (hwhere : target ≠ nowhere) {label : String}
    (h : d.callLabel target = some label) : Leading label := by
  rw [callLabel, if_neg hwhere] at h
  cases hinfo : (d.functionAt? target).bind (d.functions[·]?) with
  | some info =>
    rw [hinfo] at h
    obtain ⟨func, -, hfunc⟩ := Option.bind_eq_some_iff.1 hinfo
    rw [← Option.some.inj h]
    refine hd.functions info.frame (List.mem_of_getElem? (i := func) ?_)
    rw [getElem?_frames, hfunc]
    rfl
  | none =>
    rw [hinfo] at h
    obtain ⟨id, -, hlabel⟩ := Option.bind_eq_some_iff.1 h
    exact hd.labels id label hlabel

/-- A call is labelled with what it enters. -/
theorem named_relabelCall (hd : d.Named) (id : ItemId) :
    (d.relabelCall id).Named ∧ (d.relabelCall id).Shown id ∧
      ∀ other, d.Shown other → (d.relabelCall id).Shown other := by
  unfold relabelCall
  dsimp only
  split
  · rename_i target htarget
    split
    · rename_i hcall
      have hid := Graph.lt_size_of_isOpcodeItem (Item.isOpcodeItem_of_isOpcode hcall)
      have hshown : (d.onGraph (·.modify id (·.withTargetLabel (d.callLabel target)))).Shown id := by
        intro _ op hop target' hoperand hwhere label hlabel
        rw [show (d.onGraph (·.modify id (·.withTargetLabel (d.callLabel target)))).graph.item id =
          (d.graph.item id).withTargetLabel (d.callLabel target) from Graph.item_modify_self hid _,
          Item.withTargetLabel, Item.opcodeItem?_withTarget] at hop
        obtain ⟨old, hold, rfl⟩ := Option.map_eq_some_iff.1 hop
        rw [hold, Option.bind_some, hoperand, Option.some.injEq] at htarget
        exact leading_callLabel hd (htarget ▸ hwhere) hlabel
      refine ⟨Pass.named_modify hd id fun item => Item.label_withTarget item _ _, hshown, fun other hother => ?_⟩
      by_cases hsame : other = id
      · exact hsame ▸ hshown
      · unfold Shown
        rw [show (d.onGraph (·.modify id (·.withTargetLabel (d.callLabel target)))).graph.item other =
          d.graph.item other from Graph.item_modify_of_ne hsame _]
        exact hother
    · rename_i hcall
      exact ⟨hd, fun h => absurd h hcall, fun _ h => h⟩
  · rename_i hnone
    refine ⟨hd, fun _ op hop target hoperand => ?_, fun _ h => h⟩
    rw [hop, Option.bind_some, hoperand] at hnone
    cases hnone

theorem named_relabelCalls (hd : d.Named) :
    d.relabelCalls.Named ∧ ∀ id ∈ d.graph.order, d.relabelCalls.Shown id := by
  have hfoldl (ids : List ItemId) {d : Decompilation} (hd : d.Named) :
      (ids.foldl relabelCall d).Named ∧
        ∀ id, id ∈ ids ∨ d.Shown id → (ids.foldl relabelCall d).Shown id := by
    induction ids generalizing d with
    | nil => exact ⟨hd, fun id h => h.resolve_left List.not_mem_nil⟩
    | cons id rest ih =>
      obtain ⟨hfirst, hshown, hothers⟩ := named_relabelCall hd id
      obtain ⟨hnamed, hrest⟩ := ih hfirst
      refine ⟨hnamed, fun other hother => hrest other ?_⟩
      rcases hother with hother | hother
      · rcases List.mem_cons.1 hother with rfl | hother
        · exact Or.inr hshown
        · exact Or.inl hother
      · exact Or.inr (hothers other hother)
  obtain ⟨hnamed, hshown⟩ := hfoldl d.graph.order hd
  exact ⟨hnamed, fun id hid => hshown id (Or.inl hid)⟩

end Decompilation

end Parley
