import Parley.Proofs.Control.Round
import Parley.Proofs.Decompile.Partition
set_option autoImplicit false

/-!
# What functions are called

A function gets its name when it is discovered, by the position of its prologue.  At the beginning of the code it is the
start.  Elsewhere it has the name that is known for the position, if an instruction leads there, and is said to be
unused if none does, whether or not one leads to a start instruction before the prologue.
-/

namespace Parley

open Fallible

/-- Whether an instruction leads to a position. -/
def Graph.leadsAt (g : Graph) (pos : UInt16) : Bool := g.order.any fun id => (g.item id).leadsTo? = some pos

/-- The name of the function whose prologue stands at a position. -/
def Decompilation.entryName (d : Decompilation) (entry : UInt16) : String :=
  if entry ≤ 1 then startFunction
  else if d.graph.leadsAt entry then d.options.functionName entry
  else unusedName entry

namespace Graph

variable {g g' : Graph} {id : ItemId} {pos : UInt16}

theorem leadsAt_iff (hg : g.Ordered) : g.leadsAt pos = true ↔ ∃ id, (g.item id).leadsTo? = some pos := by
  simp only [leadsAt, List.any_eq_true, decide_eq_true_eq]
  refine ⟨fun ⟨id, _, hid⟩ => ⟨id, hid⟩, fun ⟨id, hid⟩ => ⟨id, ?_, hid⟩⟩
  exact (hg.mem_order id).2 (lt_size_of_isOpcodeItem (Item.isOpcodeItem_of_leadsTo? hid))

/-- Where instructions lead is not changed by what is put besides them. -/
theorem Extends.leadsAt (h : g.Extends g') (hg : g.Ordered) (hg' : g'.Ordered) (pos : UInt16) :
    g'.leadsAt pos = g.leadsAt pos := by
  rw [Bool.eq_iff_iff, leadsAt_iff hg, leadsAt_iff hg']
  refine ⟨fun ⟨id, hid⟩ => ⟨id, ?_⟩, fun ⟨id, hid⟩ => ⟨id, ?_⟩⟩
  · have hlt := h.lt_of_isOpcodeItem (Item.isOpcodeItem_of_leadsTo? hid)
    rwa [Item.leadsTo?_congr (h.code id hlt)] at hid
  · have hlt := lt_size_of_isOpcodeItem (Item.isOpcodeItem_of_leadsTo? hid)
    rwa [Item.leadsTo?_congr (h.code id hlt)]

end Graph

namespace Decompilation

variable {d d' : Decompilation} {id : ItemId}

theorem entryName_congr (hoptions : d'.options = d.options) (hleads : ∀ pos, d'.graph.leadsAt pos = d.graph.leadsAt pos)
    (entry : UInt16) : d'.entryName entry = d.entryName entry := by
  rw [entryName, hoptions, hleads, entryName]

/-- The labels of a listing tell which places instructions lead to. -/
theorem nameFunction_census (hd : d.graph.Ordered) (hcensus : d.graph.Census) (hid : id ∈ d.graph.order) :
    nameFunction d.options (d.graph.item id).pos (d.graph.item id).label = d.entryName (d.graph.item id).pos := by
  unfold nameFunction entryName
  split
  · rfl
  · rename_i hpos
    have hfirst : d.graph.first? ≠ some id := fun hfirst => by
      obtain ⟨first, hsame, hzero, -⟩ := hcensus.start
      obtain rfl := Option.some.inj (hfirst.symm.trans hsame)
      rw [hzero] at hpos
      exact hpos (by decide)
    have hlabelled := hcensus.labelled id hid
    rw [or_iff_right hfirst] at hlabelled
    cases hlabel : (d.graph.item id).label with
    | none =>
      have hnone : d.graph.leadsAt (d.graph.item id).pos = false := by
        by_contra hleads
        obtain ⟨jump, hjump⟩ := (Graph.leadsAt_iff hd).1 (Bool.eq_true_of_not_eq_false hleads)
        have hmem := (hd.mem_order jump).2 (Graph.lt_size_of_isOpcodeItem (Item.isOpcodeItem_of_leadsTo? hjump))
        have hsome := hlabelled.2 ⟨jump, hmem, hjump⟩
        rw [hlabel] at hsome
        cases hsome
      rw [if_neg (by rw [hnone]; exact Bool.false_ne_true)]
    | some label =>
      obtain ⟨jump, -, hjump⟩ := hlabelled.1 (by rw [hlabel]; rfl)
      obtain rfl := hcensus.label id hid label hlabel hfirst
      have hbegins : beginsWith "label_" (labelName (d.graph.item id).pos) = true := by
        rw [beginsWith, labelName, String.toList_append]
        exact List.isPrefixOf_iff_prefix.2 (List.prefix_append _ _)
      rw [if_pos ((Graph.leadsAt_iff hd).2 ⟨jump, hjump⟩)]
      exact if_pos hbegins

/-! ## From discovery to the end -/

theorem options_discoverFunctions (d : Decompilation) : d.discoverFunctions.options = d.options := by
  obtain ⟨_, _, hdiscovered⟩ := exists_discoverFrom d.graph.size d.graph.first? d
  rw [discoverFunctions, hdiscovered]

theorem options_relabelCalls (d : Decompilation) : d.relabelCalls.options = d.options := by
  obtain ⟨_, hrelabelled⟩ := exists_relabelCalls d
  rw [hrelabelled]

theorem options_survey (image : Image) (strings : List String) (options : NamingOptions) :
    (survey image strings options).options = options := by
  rw [survey, options_relabelCalls, options_discoverFunctions]
  have hblind : Pass.Blind (·.options) := fun _ _ _ _ => rfl
  exact hblind.collectReferences _

/-- When functions are discovered their local variables have been counted, and nothing else is known of variables and
callers. -/
theorem untouched_survey (image : Image) (strings : List String) (options : NamingOptions) :
    ∀ info ∈ (survey image strings options).functions.toList,
      info.callers = .empty ∧ ∃ count, info.vars = .ofCount count := by
  have hblind : Pass.Blind Decompilation.functions := fun _ _ _ _ => rfl
  have hnone : (final (Pass.collectReferences (ofImage image strings options))).functions = #[] :=
    hblind.collectReferences _
  obtain ⟨_, hrelabelled⟩ :=
    exists_relabelCalls (final (Pass.collectReferences (ofImage image strings options))).discoverFunctions
  rw [survey, hrelabelled]
  refine discoverFrom_of_addFunction (P := fun d => ∀ info ∈ d.functions.toList,
    info.callers = .empty ∧ ∃ count, info.vars = .ofCount count) (fun d entry exit hd info hinfo => ?_) _ _ ?_
  · rw [addFunction, Array.toList_push, List.mem_append, List.mem_singleton] at hinfo
    rcases hinfo with hinfo | rfl
    · exact hd info hinfo
    · exact ⟨rfl, _, rfl⟩
  · rw [hnone]
    exact fun _ hinfo => absurd hinfo List.not_mem_nil

/-- Discovery names each function by the position of its prologue. -/
theorem name_survey {image : Image} {strings : List String} {options : NamingOptions}
    (h : Pass.collectReferences (.ofImage image strings options) = .ok () d) {f : Frame}
    (hf : f ∈ (survey image strings options).frames) : f.name = (survey image strings options).entryName f.entry := by
  have hwell := ((well_ofImage image strings options).congr (bareView_collected h)).well
  have hsound := hwell.sound
  obtain ⟨front, extents, hfound, -⟩ := found_discoverFrom hsound (isOpcodeItem_collected h) d.graph.size
    (found_collected h) rfl (ahead_collected h) (Nat.le_of_eq hsound.ordered.length_order)
  have honward := hwell.discoverFunctions
  have hrelabelled := honward.well.congr (bareView_relabelCalls d.discoverFunctions)
  have hsurvey : survey image strings options = d.discoverFunctions.relabelCalls := by rw [survey, h, final_ok]
  have hframes : d.discoverFunctions.relabelCalls.frames = d.discoverFunctions.frames :=
    congrArg (·.1) (bareView_relabelCalls d.discoverFunctions)
  have hoptions : d.discoverFunctions.options = d.options := options_discoverFunctions d
  rw [hsurvey] at hf ⊢
  rw [hframes, discoverFunctions, hfound.frames] at hf
  obtain ⟨e, he, rfl⟩ := List.mem_map.1 hf
  have hmem := (hfound.stands e he).ordered.left_mem
  have hname := hfound.names e he
  rw [← discoverFunctions, hoptions, nameFunction_census hsound.ordered (census_collected h) hmem] at hname
  rw [hname, (hfound.listed e he).entry]
  exact (entryName_congr ((options_relabelCalls _).trans hoptions)
    ((honward.longer.trans hrelabelled.longer).leadsAt hsound.ordered hrelabelled.well.sound.ordered) _).symm

end Decompilation

end Parley
