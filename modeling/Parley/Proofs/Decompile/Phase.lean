import Parley.Decompile.Decompile
import Parley.Proofs.Decompile.Combination
import Parley.Proofs.Decompile.Discovery
import Parley.Proofs.Decompile.Jump
import Parley.Proofs.Listing.Sweep
import Parley.Proofs.Listing.Walk
import Parley.Proofs.Structure.Structuring
set_option autoImplicit false

/-!
# The phases of decompilation

Decompilation is a sequence of passes, and ends with the first that faults.  Whatever passes have been run, in
whatever order and on whatever functions, the listing is intact, and no item that was marked as replaced has
lost its mark.
-/

namespace Parley

open Fallible

/-! ## Cross references -/

namespace Item

theorem processed_bare (item : Item) : item.bare.processed = item.processed := by
  obtain ⟨_, _, _, _, kind⟩ := item
  cases kind <;> rfl

theorem statement?_bare (item : Item) : item.bare.statement? = item.statement? := by
  obtain ⟨_, _, _, _, kind⟩ := item
  cases kind <;> rfl

theorem front_bare (item : Item) : (item.bare.kind = .functionStart) = (item.kind = .functionStart) := by
  obtain ⟨_, _, _, _, kind⟩ := item
  cases kind <;> simp [bare, withTarget]

theorem back_bare (item : Item) : (item.bare.kind = .functionEnd) = (item.kind = .functionEnd) := by
  obtain ⟨_, _, _, _, kind⟩ := item
  cases kind <;> simp [bare, withTarget]

theorem pos_bare (item : Item) : item.bare.pos = item.pos := pos_withTarget _ none none

theorem isOpcodeItem_bare (item : Item) : item.bare.isOpcodeItem = item.isOpcodeItem :=
  Graph.isOpcodeItem_eq_of_code (code_bare item)

theorem blockLine?_bare (item : Item) : item.bare.blockLine? = item.blockLine? := by
  rw [blockLine?, processed_bare, statement?_bare, blockLine?]

end Item

/-- The graph of a code segment shows no line of a block. -/
theorem Graph.blockLine?_ofCode (code : CodeWords) (id : ItemId) :
    ((ofCode code).item id).blockLine? = none :=
  forall_item_ofCode (p := fun item => item.blockLine? = none) rfl (fun _ _ => rfl) id

namespace Decompilation

/-- A decompilation in which passes may work: its listing may be worked on and has the boundaries of its
functions. -/
structure Well (d : Decompilation) : Prop where
  sound : d.graph.Sound
  fits : ∀ f ∈ d.frames, f.Fits d.graph

/-- What a decompilation says apart from cross references. -/
def bareView (d : Decompilation) :=
  (d.frames, d.graph.order, d.graph.size, d.graph.findPos?, fun id => (d.graph.item id).bare)

theorem blind_bareView : Pass.Blind bareView := by
  intro d id f hf
  have hbare : (fun other => ((d.graph.modify id f).item other).bare) =
      fun other => (d.graph.item other).bare :=
    funext fun other => Graph.modify_keeps hf d.graph id other
  have hfind : (d.graph.modify id f).findPos? = d.graph.findPos? := rfl
  simp only [bareView, onGraph, frames, Graph.order_modify, Graph.size_modify, hbare, hfind]

/-- What a phase makes of a decompilation: one in which passes may work, with a longer listing in which further
lines of blocks are those of whole blocks. -/
structure Onward (d d' : Decompilation) : Prop where
  well : d'.Well
  longer : d.graph.Extends d'.graph
  lines : ∃ lines blocks, Written lines blocks ∧ d'.graph.entries = d.graph.entries ++ lines

/-- Calls are labelled in the listing alone. -/
theorem exists_relabelCalls (d : Decompilation) : ∃ g : Graph, d.relabelCalls = { d with graph := g } := by
  unfold relabelCalls
  induction d.graph.order generalizing d with
  | nil => exact ⟨d.graph, rfl⟩
  | cons id rest ih =>
    obtain ⟨g, hg⟩ : ∃ g : Graph, relabelCall d id = { d with graph := g } := by
      unfold relabelCall
      dsimp only
      split
      · split
        · exact ⟨_, rfl⟩
        · exact ⟨d.graph, rfl⟩
      · exact ⟨d.graph, rfl⟩
    obtain ⟨g', hg'⟩ := ih (relabelCall d id)
    exact ⟨g', by rw [List.foldl_cons, hg', hg]⟩

/-- Discovery changes the listing and the functions that are known, and nothing else. -/
theorem exists_discoverFrom (fuel : Nat) (cursor : Option ItemId) (d : Decompilation) :
    ∃ (g : Graph) (functions : Array FunctionInfo), discoverFrom fuel cursor d = { d with graph := g, functions } := by
  refine discoverFrom_of_addFunction (P := fun d' => ∃ (g : Graph) (functions : Array FunctionInfo),
    d' = { d with graph := g, functions }) ?_ fuel cursor ⟨d.graph, d.functions, rfl⟩
  rintro _ entry exit ⟨g, functions, rfl⟩
  exact ⟨_, _, rfl⟩

/-- Calls are labelled without a change of anything else. -/
theorem bareView_relabelCalls (d : Decompilation) : d.relabelCalls.bareView = d.bareView := by
  unfold relabelCalls
  induction d.graph.order generalizing d with
  | nil => rfl
  | cons id rest ih =>
    refine (ih _).trans ?_
    unfold relabelCall
    dsimp only
    split
    · split
      · exact blind_bareView d id _ fun item => Item.bare_withTarget item _ _
      · rfl
    · rfl

variable {d d' d'' : Decompilation}

theorem item_of_bareView {α : Type} {f : Item → α} (hf : ∀ item : Item, f item.bare = f item)
    (h : d'.bareView = d.bareView) (id : ItemId) : f (d'.graph.item id) = f (d.graph.item id) := by
  simp only [bareView, Prod.mk.injEq] at h
  rw [← hf, congrFun h.2.2.2.2 id, hf]

theorem Onward.refl (hd : d.Well) : d.Onward d :=
  ⟨hd, Graph.Extends.refl _, [], [], .nil, (List.append_nil _).symm⟩

theorem Onward.trans (h : d.Onward d') (h' : d'.Onward d'') : d.Onward d'' := by
  obtain ⟨lines, blocks, hwritten, hentries⟩ := h.lines
  obtain ⟨lines', blocks', hwritten', hentries'⟩ := h'.lines
  refine ⟨h'.well, h.longer.trans h'.longer, lines ++ lines', blocks ++ blocks',
    hwritten.append hwritten', ?_⟩
  rw [hentries', hentries, List.append_assoc]

namespace Well

/-- Decompilations that differ in cross references only. -/
theorem congr (hd : d.Well) (h : d'.bareView = d.bareView) : d.Onward d' := by
  have heq {α : Type} {f : Item → α} (hf : ∀ item : Item, f item.bare = f item) :=
    item_of_bareView hf h
  simp only [bareView, Prod.mk.injEq] at h
  obtain ⟨hframes, horder, hsize, hfind, -⟩ := h
  have hpos := heq Item.pos_bare
  have hordered : d'.graph.Ordered := by
    refine ⟨?_, ?_, ?_, ?_⟩
    · rw [horder]
      exact hd.sound.ordered.nodup
    · rw [horder, hsize]
      exact hd.sound.ordered.mem_order
    · simpa only [horder, hpos] using hd.sound.ordered.sorted
    · simpa only [horder, hpos, hfind] using hd.sound.ordered.findPos
  have hline := heq Item.blockLine?_bare
  have hstatement := heq (f := fun item => item.statement?.isSome)
    fun item => congrArg Option.isSome (Item.statement?_bare item)
  refine ⟨⟨hd.sound.congr hordered horder (heq Item.code_bare) hstatement hline, fun f hf => ?_⟩, ?_, [], [],
    .nil, ?_⟩
  · have hfits := hd.fits f (hframes ▸ hf)
    exact {
      front := (heq (f := fun item => item.kind = .functionStart) Item.front_bare f.startItem).mpr hfits.front
      back := (heq (f := fun item => item.kind = .functionEnd) Item.back_bare f.endItem).mpr hfits.back
      posFront := (hpos _).trans hfits.posFront
      posBack := (hpos _).trans hfits.posBack
      ordered := horder ▸ hfits.ordered
      behind := hfits.behind.imp fun id hbehind =>
        ⟨horder ▸ hbehind.1, (heq Item.isOpcodeItem_bare id).trans hbehind.2⟩
      start_le := hfits.start_le
      entry_lt := hfits.entry_lt }
  · refine ⟨Nat.le_of_eq hsize.symm, hsize.trans, horder ▸ List.Sublist.refl _, fun id _ => heq Item.code_bare id,
      fun id _ hmarked => (heq Item.processed_bare id).trans hmarked, fun id hid => ?_⟩
    rw [heq Item.isOpcodeItem_bare id, Graph.item_of_size_le hid]
    rfl
  · rw [List.append_nil]
    exact Graph.entries_congr hsize fun id _ => hline id

theorem grow {lines : List (ItemId × StatementRole)} (hd : d.Well) (h : d.Advances lines d') : d'.Well :=
  ⟨h.sound, fun f hf => (hd.fits f (h.frames ▸ hf)).widens hd.sound h.grows.toWidens⟩

theorem advances {lines : List (ItemId × StatementRole)} {blocks : List Block} (hd : d.Well)
    (hwritten : Written lines blocks) (h : d.Advances lines d') : d.Onward d' :=
  ⟨hd.grow h, h.grows.extends, lines, blocks, hwritten, h.grows.entries⟩

theorem quiet (hd : d.Well) (h : d.Advances [] d') : d.Onward d' := hd.advances .nil h

theorem writes (hd : d.Well) (h : d.Writes d') : d.Onward d' := by
  obtain ⟨lines, blocks, hwritten, -, hgrows⟩ := h.graph
  exact hd.advances hwritten ⟨hgrows, h.frames⟩

/-- Items that are no statements are marked. -/
theorem marking (hd : d.Well) {ids : List ItemId} (hids : ∀ id ∈ ids, (d.graph.item id).statement? = none) :
    d.Onward (d.marking ids) := by
  have heq {α : Type} (p : Item → α) (hp : ∀ item : Item, p item.markProcessed = p item) :=
    Graph.markAll_keeps hp d.graph ids
  have horder : (d.marking ids).graph.order = d.graph.order := Graph.order_markAll d.graph ids
  refine ⟨⟨Graph.sound_markAll hd.sound hids, fun f hf => ?_⟩, Graph.extends_markAll d.graph ids, [], [],
    .nil, ?_⟩
  · have hfits := hd.fits f hf
    exact {
      front := (heq Item.kind (fun _ => rfl) _).trans hfits.front
      back := (heq Item.kind (fun _ => rfl) _).trans hfits.back
      posFront := (heq Item.pos (fun _ => rfl) _).trans hfits.posFront
      posBack := (heq Item.pos (fun _ => rfl) _).trans hfits.posBack
      ordered := horder ▸ hfits.ordered
      behind := hfits.behind.imp fun id hbehind =>
        ⟨horder ▸ hbehind.1, (heq Item.isOpcodeItem (fun _ => rfl) id).trans hbehind.2⟩
      start_le := hfits.start_le
      entry_lt := hfits.entry_lt }
  · rw [List.append_nil]
    exact Graph.entries_congr (Graph.size_markAll d.graph ids) fun id _ => Graph.blockLine?_markAll hids id

theorem discoverFunctions (hd : d.Well) : d.Onward d.discoverFunctions := by
  obtain ⟨hwidens, hfits⟩ := fits_discoverFrom d.graph.size hd.sound hd.fits fun first hfirst =>
    hd.sound.ordered.lt_of_mem (List.mem_of_head? hfirst)
  exact ⟨⟨hwidens.sound, hfits⟩, hwidens.extends, [], [], .nil, hwidens.entries⟩

theorem relabelCalls (hd : d.Well) : d.Onward d.relabelCalls := hd.congr (bareView_relabelCalls d)

/-- The analysis of a function marks calls, and is quiet otherwise. -/
theorem analyze (hd : d.Well) (func : Nat) : d.Onward (final (Pass.analyze func d)) := by
  have hmarking {calls : List ItemId} {d' : Decompilation} (hcalls : calls ⊆ d.openCalls (d.body func))
      (h : (d.marking calls).Advances [] d') : d.Onward d' := by
    have hmarked := hd.marking fun id hid => (place_of_mem_openCalls (hcalls hid)).2
    exact hmarked.trans (hmarked.well.quiet h)
  have hanalyzed := Pass.analyzed_analyze hd.sound func
  generalize Pass.analyze func d = result at *
  cases hanalyzed with
  | done h hcalls => exact hmarking (hcalls ▸ List.Subset.refl _) h.advances
  | failed hfront h _ => exact hmarking hfront.subset h

theorem addSignature (hd : d.Well) (func : Nat) : d.Onward (final (Pass.addSignature func d)) := by
  cases hfunc : d.frames[func]? with
  | none =>
    rw [getElem?_frames, Option.map_eq_none_iff] at hfunc
    rw [Pass.addSignature, modify_apply, final_ok, hfunc]
    exact Onward.refl hd
  | some f =>
    obtain ⟨header, opening, closing, hadvances, -⟩ :=
      Pass.heads_addSignature hd.sound hfunc (hd.fits f (List.mem_of_getElem? hfunc))
    exact hd.advances (Written.single .function opening closing) hadvances

end Well

/-- Nothing is marked, written or discovered before decompilation. -/
theorem well_ofImage (image : Image) (strings : List String) (options : NamingOptions) :
    (ofImage image strings options).Well := by
  have hline := Graph.blockLine?_ofCode image.code
  refine ⟨⟨Graph.ofCode_ordered image.code, fun a b hab ha hb => ?_, fun id line h => ?_, fun id h => ?_⟩,
    fun f hf => by cases hf⟩
  · exact List.pairwise_iff_forall_sublist.1 (Graph.pairwise_order_ofItems (Graph.pairwise_codeItems image.code)) hab
  · cases (hline id).symm.trans h
  · obtain ⟨line, hsome, -⟩ := Option.map_eq_some_iff.1 h
    cases (hline id).symm.trans hsome

end Decompilation

/-! ## Phases -/

/-- The parts that decompilation consists of. -/
inductive Phase where
  | references
  | discovery
  | relabeling
  | analysis (func : Nat)
  | combination (func : Nat)
  | switches (func : Nat)
  | whileLoops (func : Nat)
  | doWhileLoops (func : Nat)
  | conditionals (func : Nat)
  | jumps (func : Nat)
  | signature (func : Nat)
  /-- Drop the references to functions with other starts than these. -/
  | dropping (reached : List UInt16)
  /-- Note how far decompilation has come. -/
  | note (stage : Stage)

/-- What a phase leaves of a decompilation, whether it succeeds or faults. -/
def Phase.run (d : Decompilation) : Phase → Decompilation
  | references => final (Pass.collectReferences d)
  | discovery => d.discoverFunctions
  | relabeling => d.relabelCalls
  | analysis func => final (Pass.analyze func d)
  | combination func => final (Pass.combine func d)
  | switches func => final (Pass.findSwitches func d)
  | whileLoops func => final (Pass.findWhileLoops func d)
  | doWhileLoops func => final (Pass.findDoWhileLoops func d)
  | conditionals func => final (Pass.findConditionals func d)
  | jumps func => final (Pass.writeJumps func d)
  | signature func => final (Pass.addSignature func d)
  | dropping reached => d.dropAllUnreached reached
  | note stage => { d with stage }

/-- What phases leave of a decompilation one after the other. -/
def runPhases (phases : List Phase) (d : Decompilation) : Decompilation := phases.foldl Phase.run d

theorem runPhases_append (phases more : List Phase) (d : Decompilation) :
    runPhases (phases ++ more) d = runPhases more (runPhases phases d) :=
  List.foldl_append

namespace Decompilation.Well

variable {d : Decompilation}

theorem phase (hd : d.Well) (phase : Phase) : d.Onward (phase.run d) := by
  cases phase with
  | references => exact hd.congr (blind_bareView.collectReferences d)
  | discovery => exact hd.discoverFunctions
  | relabeling => exact hd.relabelCalls
  | analysis func => exact hd.analyze func
  | combination func => exact hd.quiet (Pass.quiet_combine func hd.sound)
  | switches func => exact hd.writes (Pass.writes_findSwitches hd.sound func)
  | whileLoops func => exact hd.writes (Pass.writes_findWhileLoops hd.sound func)
  | doWhileLoops func => exact hd.writes (Pass.writes_findDoWhileLoops hd.sound func)
  | conditionals func => exact hd.writes (Pass.writes_findConditionals hd.sound func)
  | jumps func => exact hd.quiet (Pass.quiet_writeJumps func hd.sound)
  | signature func => exact hd.addSignature func
  | dropping reached => exact hd.quiet (advances_dropAllUnreached hd.sound reached)
  | note stage => exact ⟨⟨hd.sound, hd.fits⟩, (Onward.refl hd).longer, (Onward.refl hd).lines⟩

theorem runPhases (hd : d.Well) (phases : List Phase) : d.Onward (runPhases phases d) := by
  induction phases generalizing d with
  | nil => exact Onward.refl hd
  | cons phase rest ih =>
    have hfirst := hd.phase phase
    exact hfirst.trans (ih hfirst.well)

end Decompilation.Well

/-! ## Decompilation -/

namespace Pass

variable {α β : Type}

/-- A pass is made of phases, and ends behind the first that faults. -/
def Phased (x : Pass α) : Prop := ∀ d, ∃ phases, final (x d) = runPhases phases d

theorem phased_pure (a : α) : Phased (pure a) := fun _ => ⟨[], rfl⟩

theorem phased_throw (fault : DecompileFault) : Phased (throw fault : Pass α) := fun _ => ⟨[], rfl⟩

theorem phased_get_bind {f : Decompilation → Pass α} (h : ∀ d, Phased (f d)) : Phased (get >>= f) :=
  fun d => h d d

theorem phased_of_run {x : Pass α} (phase : Phase) (h : ∀ d, final (x d) = phase.run d) : Phased x :=
  fun d => ⟨[phase], h d⟩

theorem Phased.bind {x : Pass α} {f : α → Pass β} (hx : Phased x) (hf : ∀ a, Phased (f a)) :
    Phased (x >>= f) := by
  intro d
  obtain ⟨phases, hphases⟩ := hx d
  cases h : x d with
  | ok a d' =>
    obtain ⟨more, hmore⟩ := hf a d'
    rw [h] at hphases
    refine ⟨phases ++ more, ?_⟩
    rw [bind_of_ok h, hmore, runPhases_append, ← hphases]
    rfl
  | error fault d' =>
    rw [h] at hphases
    exact ⟨phases, by rw [bind_of_error h]; exact hphases⟩

/-- A part that is done on a condition. -/
theorem phased_when {c : Prop} [Decidable c] {x : Pass PUnit} {f : PUnit → Pass β} (hx : Phased x)
    (hf : ∀ a, Phased (f a)) : Phased (if c then x >>= f else f ⟨⟩) := by
  split
  · exact hx.bind hf
  · exact hf ⟨⟩

theorem phased_structureFunction (func : Nat) : Phased (structureFunction func) :=
  (phased_of_run (.switches func) fun _ => rfl).bind fun _ =>
  (phased_of_run (.whileLoops func) fun _ => rfl).bind fun _ =>
  (phased_of_run (.doWhileLoops func) fun _ => rfl).bind fun _ =>
  (phased_of_run (.conditionals func) fun _ => rfl).bind fun _ =>
  phased_of_run (.jumps func) fun _ => rfl

theorem phased_addSignature (func : Nat) : Phased (addSignature func) :=
  phased_of_run (.signature func) fun _ => rfl

theorem phased_decompileFunction (func : Nat) : Phased (decompileFunction func) :=
  (phased_of_run (.analysis func) fun _ => rfl).bind fun callees =>
    (phased_of_run (.combination func) fun _ => rfl).bind fun _ => (phased_structureFunction func).bind fun _ =>
    (phased_addSignature func).bind fun _ => phased_pure callees

theorem phased_decompileQueue (fuel : Nat) (queue : List Nat) (visited : List UInt16) :
    Phased (decompileQueue fuel queue visited) := by
  induction fuel generalizing queue visited with
  | zero => exact phased_pure visited
  | succ fuel ih =>
    cases queue with
    | nil => exact phased_pure visited
    | cons func queue =>
      refine phased_get_bind fun d => ?_
      dsimp only
      split
      · exact ih queue visited
      · exact (phased_decompileFunction func).bind fun callees => phased_get_bind fun d => ih _ _

/-- Decompilation is made of phases. -/
theorem phased_decompile : Phased decompile := by
  have hdiscover : Phased (modify (·.discoverFunctions.relabelCalls) : Pass PUnit) :=
    fun d => ⟨[.discovery, .relabeling], rfl⟩
  refine phased_get_bind fun d => ?_
  split
  · exact phased_pure _
  · refine phased_when (phased_of_run .references fun _ => rfl) fun _ => ?_
    refine hdiscover.bind fun _ => phased_get_bind fun d => ?_
    split
    · exact phased_throw _
    · exact (phased_decompileQueue _ _ _).bind fun reached d =>
        ⟨[.dropping reached, .note .decompiled], rfl⟩

end Pass

/-- Whether the decompilation of an image succeeds and is as asked for. -/
def decompilesTo (image : Image) (asked : Decompilation → Bool) : Bool :=
  match Pass.decompile (.ofImage image [] ⟨false, .empty⟩) with
  | .ok () d => asked d
  | .error _ _ => false

theorem decompilesTo_iff {image : Image} {asked : Decompilation → Bool} :
    decompilesTo image asked = true ↔
      ∃ d, Pass.decompile (.ofImage image [] ⟨false, .empty⟩) = .ok () d ∧ asked d = true := by
  unfold decompilesTo
  split
  · rename_i d heq
    simp [heq]
  · rename_i heq
    simp [heq]

/-- What is asked of a decompilation can be decided by running it. -/
theorem exists_decompile {image : Image} {p : Decompilation → Prop} [DecidablePred p]
    (h : decompilesTo image (fun d => decide (p d)) = true) :
    ∃ d, Pass.decompile (.ofImage image [] ⟨false, .empty⟩) = .ok () d ∧ p d := by
  obtain ⟨d, hrun, hasked⟩ := decompilesTo_iff.1 h
  exact ⟨d, hrun, of_decide_eq_true hasked⟩

end Parley
