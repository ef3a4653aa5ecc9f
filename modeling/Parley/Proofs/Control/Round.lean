import Parley.Proofs.Control.Destination
import Parley.Proofs.Control.Leftover
import Parley.Proofs.Control.Preparation
import Parley.Proofs.Reach.Header
set_option autoImplicit false

/-!
# Functions decompiled one after the other

A conversation is decompiled in rounds, one for each function.  In a round the function is prepared, its control
structures are recovered by deeds, and it gets its signature.  Between two rounds all expressions stand in functions
that have been decompiled, and all jumps there have been replaced.  So the recovery never takes a condition out of
another function.
-/

namespace Parley

open Fallible

/-! ## Lines that are no stores -/

theorem beginsWith_placeLabel (pos : UInt16) (rest : String) :
    beginsWith Pass.localMark (placeLabel pos ++ rest) = false := by
  unfold placeLabel
  split
  · simp [beginsWith, List.isPrefixOf, Pass.localMark, startFunction]
  · simp [beginsWith, List.isPrefixOf, Pass.localMark, labelName]

theorem Graph.Aims.label_eq {g : Graph} {start stop jump : ItemId} {target : UInt16} {label : String}
    (h : g.Aims start stop jump target label) (hg : g.NamesJumps) : label = placeLabel target := by
  rw [h.named, hg jump target h.isJump h.leads, Option.getD_some]

theorem Graph.Retains.namesJumps {g g' : Graph} (h : g.Retains g') (hg : g.NamesJumps) : g'.NamesJumps := by
  intro id target hjump htarget
  have hop := h.opcodeItem? id (h.longer.lt_of_isOpcodeItem (Item.isOpcodeItem_of_isJump hjump))
  rw [Item.targetLabel?, hop, ← Item.targetLabel?]
  exact hg id target ((Item.isJump_of_opcodeItem? hop).symm.trans hjump)
    ((Item.targetPos?_of_opcodeItem? hop).symm.trans htarget)

namespace Recovery

variable {start stop : ItemId} {w w' : Recovery} {deed : Deed}

/-- No line that is put begins like the name of a local variable. -/
theorem legible_of_fits (hg : w.graph.NamesJumps) (h : deed.Fits start stop w) :
    ∀ put ∈ deed.puts, beginsWith Pass.localMark put.statement.text = false := by
  cases h with
  | label haims =>
    intro put hput
    rw [List.mem_singleton.1 hput, haims.label_eq hg]
    exact beginsWith_placeLabel _ _
  | conditional =>
    intro put hput
    simp only [Deed.puts, List.cons_append, List.nil_append, List.mem_cons, List.mem_append, List.mem_map,
      List.not_mem_nil, or_false] at hput
    rcases hput with rfl | ⟨site, -, rfl⟩ | rfl <;>
      simp [beginsWith, List.isPrefixOf, Pass.localMark, openingLine, closingLine, openBrace, closeBrace]
  | _ =>
    simp [Deed.puts, Deed.caseLines, beginsWith, List.isPrefixOf, Pass.localMark, openingLine, closingLine,
      Pass.gotoIfText, openBrace, closeBrace, Statement.plain]

theorem Does.legible (h : w.Does start stop deed w') (hnames : w.graph.NamesJumps) (hg : w.graph.Legible) :
    w'.graph.Legible := by
  intro id line hline
  rcases h.overlays.controlLine?_iff.1 hline with hold | ⟨-, i, site, hput, -⟩
  · exact hg id line hold
  · exact legible_of_fits hnames h.fits _ (List.mem_of_getElem? hput)

theorem Leads.legible (h : w.Leads start stop w') (hordered : w.graph.Ordered) (hnames : w.graph.NamesJumps)
    (hg : w.graph.Legible) : w'.graph.Legible := by
  induction h with
  | refl => exact hg
  | tail hleads hstep ih =>
    obtain ⟨deed, hdoes⟩ := hstep
    exact hdoes.legible ((Leads.retains hleads hordered).namesJumps hnames) ih

end Recovery

/-! ## Rounds -/

namespace Decompilation

variable {d d' : Decompilation} {func : Nat} {f : Frame} {id : ItemId}

theorem bounds_of_getElem? (hf : d.frames[func]? = some f) : d.bounds func = (f.startItem, f.endItem) := by
  obtain ⟨info, hinfo, rfl⟩ := Option.map_eq_some_iff.1 ((d.getElem?_frames func).symm.trans hf)
  rw [bounds, hinfo]
  rfl

theorem within_of_mem_body (hd : d.Well) (hf : d.frames[func]? = some f) (hid : id ∈ d.body func) :
    d.graph.Within f.startItem f.endItem id := by
  rw [body_of_getElem? hf] at hid
  exact (hd.sound.ordered.mem_between (hd.fits f (List.mem_of_getElem? hf)).ordered).1 hid

/-- An item stands in a function. -/
def Has (d : Decompilation) (func : Nat) (id : ItemId) : Prop :=
  ∃ f, d.frames[func]? = some f ∧ d.graph.Within f.startItem f.endItem id

theorem has_iff (hf : d.frames[func]? = some f) : d.Has func id ↔ d.graph.Within f.startItem f.endItem id := by
  constructor
  · rintro ⟨f', hf', hwithin⟩
    rwa [Option.some.inj (hf.symm.trans hf')]
  · exact fun hwithin => ⟨f, hf, hwithin⟩

theorem mem_body_iff (hd : d.Well) (hf : d.frames[func]? = some f) : id ∈ d.body func ↔ d.Has func id := by
  rw [has_iff hf, body_of_getElem? hf]
  exact hd.sound.ordered.mem_between (hd.fits f (List.mem_of_getElem? hf)).ordered

theorem Has.mono (h : d.Has func id) (hlonger : d.graph.Extends d'.graph) (hframes : d'.frames = d.frames) :
    d'.Has func id := by
  obtain ⟨f, hf, hwithin⟩ := h
  exact ⟨f, hframes ▸ hf, hwithin.mono hlonger.order⟩

/-- What was there stands in a function where it stood in it before. -/
theorem has_iff_of_extends (hd : d.Well) (hd' : d'.Well) (hlonger : d.graph.Extends d'.graph)
    (hframes : d'.frames = d.frames) (hid : id < d.graph.size) : d'.Has func id ↔ d.Has func id := by
  refine ⟨fun ⟨f, hf, hwithin⟩ => ?_, fun h => h.mono hlonger hframes⟩
  rw [hframes] at hf
  exact ⟨f, hf, (hlonger.within_iff hd.sound.ordered hd'.sound.ordered
    (hd.fits f (List.mem_of_getElem? hf)).ordered hid).1 hwithin⟩

end Decompilation

/-- A round in which a function is prepared, its control structures are recovered, and it gets its signature. -/
structure Round (func : Nat) (f : Frame) (d before : Decompilation) (w : Recovery) (after d' : Decompilation) :
    Prop where
  frame : d.frames[func]? = some f
  prepared : d.Calm f.startItem f.endItem before
  ready : before.graph.Ready f.startItem f.endItem
  names : before.graph.NamesJumps
  cleared : Pass.Cleared f.startItem f.endItem ⟨⟨before.graph, before.loopRanges⟩, [], []⟩ before
    (before.body func) after w
  signed : after.Calm f.startItem f.endItem d'
  preparing : before = runPhases [.analysis func, .combination func] d
  recovering : after = runPhases [.switches func, .whileLoops func, .doWhileLoops func, .conditionals func,
    .jumps func] before
  signing : d' = runPhases [.signature func] after

namespace Round

variable {func : Nat} {f : Frame} {d before after d' : Decompilation} {w : Recovery} {id : ItemId}
  (h : Round func f d before w after d')

include h

theorem retains : before.graph.Retains after.graph :=
  h.cleared.reached.graph ▸ h.cleared.leads.retains h.ready.ordered

theorem phases : d' = runPhases [.analysis func, .combination func, .switches func, .whileLoops func,
    .doWhileLoops func, .conditionals func, .jumps func, .signature func] d := by
  rw [h.signing, h.recovering, h.preparing, ← runPhases_append, ← runPhases_append]
  simp only [List.cons_append, List.nil_append]

theorem longer : d.graph.Extends d'.graph := (h.prepared.longer.trans h.retains.longer).trans h.signed.longer

theorem op (hid : id < d.graph.size) : (d'.graph.item id).opcodeItem? = (d.graph.item id).opcodeItem? := by
  have hid' := Nat.lt_of_lt_of_le hid h.prepared.longer.size
  rw [h.signed.op (Nat.lt_of_lt_of_le hid' h.retains.longer.size), h.retains.opcodeItem? id hid', h.prepared.op hid]

theorem frames : d'.frames = d.frames := by
  rw [h.signed.frames, Decompilation.frames, h.cleared.functions, ← Decompilation.frames, h.prepared.frames]

/-- The expressions that are made stand in the function. -/
theorem made (hid : d.graph.size ≤ id) (hexpression : (d'.graph.item id).expression?.isSome = true) :
    d'.graph.Within f.startItem f.endItem id := by
  by_cases hafter : id < after.graph.size
  · rw [Item.expression?_of_outline (h.signed.outline id hafter)] at hexpression
    by_cases hbefore : id < before.graph.size
    · rw [h.retains.expression? id hbefore] at hexpression
      exact (h.prepared.made id hid hexpression).mono (h.retains.longer.trans h.signed.longer).order
    · rw [h.retains.made id (Nat.le_of_not_lt hbefore)] at hexpression
      cases hexpression
  · exact h.signed.made id (Nat.le_of_not_lt hafter) hexpression

theorem expression (hid : id < d.graph.size) :
    (d'.graph.item id).expression?.isSome = (d.graph.item id).expression?.isSome := by
  have hid' := Nat.lt_of_lt_of_le hid h.prepared.longer.size
  rw [Item.expression?_of_outline (h.signed.outline id (Nat.lt_of_lt_of_le hid' h.retains.longer.size)),
    h.retains.expression? id hid', Item.expression?_of_outline (h.prepared.outline id hid)]

/-- What was a line of the control structure stays one. -/
theorem line (hid : id < d.graph.size) : (d'.graph.item id).controlLine? = (d.graph.item id).controlLine? := by
  rw [h.signed.lines, h.retains.controlLine? id (Nat.lt_of_lt_of_le hid h.prepared.longer.size), h.prepared.lines]

theorem well (hd : d.Well) : d'.Well := h.phases ▸ (hd.runPhases _).well

theorem wellBefore (hd : d.Well) : before.Well := h.preparing ▸ (hd.runPhases _).well

theorem wellAfter (hd : d.Well) : after.Well := h.recovering ▸ ((h.wellBefore hd).runPhases _).well

theorem framesAfter : after.frames = before.frames := by
  rw [Decompilation.frames, h.cleared.functions, Decompilation.frames]

end Round

/-! ## Between two rounds -/

namespace Decompilation

variable {found d d' : Decompilation} {done : List Nat} {func : Nat} {f : Frame} {callees : List Nat} {id : ItemId}

/-- What there is when the functions of `done` have been decompiled: all expressions stand in them, and all of their
jumps have been replaced. -/
structure Account (found : Decompilation) (done : List Nat) (d : Decompilation) : Prop where
  well : d.Well
  longer : found.graph.Extends d.graph
  op : ∀ id < found.graph.size, (d.graph.item id).opcodeItem? = (found.graph.item id).opcodeItem?
  frames : d.frames = found.frames
  legible : d.graph.Legible
  expressions : ∀ id, (d.graph.item id).expression?.isSome = true → ∃ func ∈ done, d.Has func id
  spent : ∀ func ∈ done, ∀ id, d.Has func id → (d.graph.item id).isJump = true →
    (d.graph.item id).processed = true

namespace Account

theorem start (hfound : found.Surveyed) (hcharted : found.graph.Charted) : found.Account [] found where
  well := ⟨hfound.sound, hfound.placed.framed.fits⟩
  longer := Graph.Extends.refl _
  op _ _ := rfl
  frames := rfl
  legible id line hline := by
    rw [Item.controlLine?_of_statement? (hcharted.unreduced id).2] at hline
    cases hline
  expressions id hexpression := by
    rw [(hcharted.unreduced id).1] at hexpression
    cases hexpression
  spent _ hfunc := absurd hfunc List.not_mem_nil

variable (h : found.Account done d)

include h

theorem framed (hfound : found.Surveyed) : d.graph.Framed d.frames :=
  ⟨h.well.fits, h.frames ▸ hfound.placed.framed.apart⟩

/-- No item stands in two functions. -/
theorem eq_of_has (hfound : found.Surveyed) {func' : Nat} (hhas : d.Has func id) (hhas' : d.Has func' id) :
    func = func' := by
  obtain ⟨f, hf, hwithin⟩ := hhas
  obtain ⟨f', hf', hwithin'⟩ := hhas'
  exact eq_of_mem_body h.well.sound (h.framed hfound) hf hf' ((mem_body_iff h.well hf).2 ⟨f, hf, hwithin⟩)
    ((mem_body_iff h.well hf').2 ⟨f', hf', hwithin'⟩)

end Account

/-! ### A round -/

end Decompilation

namespace Pass

variable {d d' : Decompilation} {func : Nat}

theorem runPhases_structureFunction (h : structureFunction func d = .ok () d') :
    d' = runPhases [.switches func, .whileLoops func, .doWhileLoops func, .conditionals func, .jumps func] d := by
  obtain ⟨_, d₁, hswitches, h⟩ := bind_eq_ok.1 h
  obtain ⟨_, d₂, hwhile, h⟩ := bind_eq_ok.1 h
  obtain ⟨_, d₃, hdoWhile, h⟩ := bind_eq_ok.1 h
  obtain ⟨_, d₄, hconditionals, hjumps⟩ := bind_eq_ok.1 h
  simp only [runPhases, List.foldl_cons, List.foldl_nil, Phase.run, hswitches, hwhile, hdoWhile, hconditionals,
    hjumps, final_ok]

end Pass

namespace Decompilation

variable {found d d' before : Decompilation} {done : List Nat} {func : Nat} {f : Frame} {callees : List Nat}
  {id : ItemId}

namespace Account

variable (h : found.Account done d) (hfound : found.Surveyed) (hcharted : found.graph.Charted)

include h in
/-- When a function has been prepared, an expression behind an open jump stands in it: in the functions that have been
decompiled there are no such jumps. -/
theorem settled (hprepared : d.Calm f.startItem f.endItem before) {jump : ItemId}
    (hadjoins : Adjoins before.graph.order jump id) (hjump : (before.graph.item jump).isOpenOpcode .jmp = true)
    (hopen : (before.graph.item id).isOpenExpression = true) : before.graph.Within f.startItem f.endItem id := by
  rw [Item.isOpenExpression, Bool.and_eq_true] at hopen
  by_cases hid : id < d.graph.size
  · rw [Item.expression?_of_outline (hprepared.outline id hid)] at hopen
    obtain ⟨func', hfunc', f', hf', hwithin⟩ := h.expressions id hopen.2
    have hopcode := Item.opcode?_of_isOpenOpcode hjump
    have hlt := hprepared.longer.lt_of_isOpcodeItem (Item.isOpcodeItem_of_opcode? hopcode)
    rw [Item.opcode?, hprepared.op hlt, ← Item.opcode?] at hopcode
    have hback := h.well.fits f' (List.mem_of_getElem? hf')
    have hadjoins' := hprepared.longer.adjoins h.well.sound.ordered hprepared.ordered hlt hid hadjoins
    have hnodup := h.well.sound.ordered.nodup
    have hfront : Precedes d.graph.order f'.startItem jump := by
      refine (hadjoins'.eq_or_precedes_left hnodup hwithin.1).resolve_left fun hsame => ?_
      have hkind := hback.front
      rw [hsame] at hkind
      simp [Item.opcode?, Item.opcodeItem?, hkind] at hopcode
    have hspent := h.spent func' hfunc' jump ⟨f', hf', hfront, hadjoins'.precedes.trans hnodup hwithin.2⟩
      (by rw [Item.isJump, hopcode]; rfl)
    rw [Item.isOpenOpcode, hprepared.longer.processed jump hlt hspent] at hjump
    cases hjump
  · exact hprepared.made id (Nat.le_of_not_lt hid) hopen.2

include h hfound hcharted

/-- What is known of jumps when all functions are known stays known. -/
theorem charted (hlonger : d.graph.Extends before.graph) (hordered : before.graph.Ordered)
    (hop : ∀ id < d.graph.size, (before.graph.item id).opcodeItem? = (d.graph.item id).opcodeItem?) :
    before.graph.NamesJumps ∧ ∀ id target, (before.graph.item id).targetPos? = some target →
      (before.graph.findPos? target).isSome = true := by
  have hold {id : ItemId} (hid : (before.graph.item id).isOpcodeItem = true) :
      (before.graph.item id).opcodeItem? = (found.graph.item id).opcodeItem? := by
    have hlt := (h.longer.trans hlonger).lt_of_isOpcodeItem hid
    exact (hop id (Nat.lt_of_lt_of_le hlt h.longer.size)).trans (h.op id hlt)
  refine ⟨fun id target hjump htarget => ?_, fun id target htarget => ?_⟩
  · have hop := hold (Item.isOpcodeItem_of_isJump hjump)
    rw [Item.targetLabel?, hop, ← Item.targetLabel?]
    exact hcharted.named id target ((Item.isJump_of_opcodeItem? hop).symm.trans hjump)
      ((Item.targetPos?_of_opcodeItem? hop).symm.trans htarget)
  · rw [Item.targetPos?_of_opcodeItem? (hold (Item.isOpcodeItem_of_targetPos? htarget))] at htarget
    exact (h.longer.trans hlonger).isSome_findPos? hfound.sound.ordered hordered (hcharted.found id target htarget)

/-- The round of a function. -/
theorem exists_round (hf : found.frames[func]? = some f)
    (hrun : Pass.decompileFunction func d = .ok callees d') :
    ∃ before w after, Round func f d before w after d' := by
  obtain ⟨callees, d₁, hanalyze, hrest⟩ := bind_eq_ok.1 hrun
  obtain ⟨_, before, hcombine, hrest⟩ := bind_eq_ok.1 hrest
  obtain ⟨_, after, hstructure, hrest⟩ := bind_eq_ok.1 hrest
  obtain ⟨_, d'', hsign, hpure⟩ := bind_eq_ok.1 hrest
  obtain ⟨-, rfl⟩ := pure_eq_ok.1 hpure
  rw [← h.frames] at hf
  have hpreparing : before = runPhases [.analysis func, .combination func] d := by
    simp only [runPhases, List.foldl_cons, List.foldl_nil, Phase.run, hanalyze, hcombine, final_ok]
  have hanalyzing : d₁ = runPhases [.analysis func] d := by
    simp only [runPhases, List.foldl_cons, List.foldl_nil, Phase.run, hanalyze, final_ok]
  have hrecovering := Pass.runPhases_structureFunction hstructure
  have hwell₁ : d₁.Well := hanalyzing ▸ (h.well.runPhases _).well
  have hwellBefore : before.Well := hpreparing ▸ (h.well.runPhases _).well
  have hwellAfter : after.Well := hrecovering ▸ (hwellBefore.runPhases _).well
  have hanalyzed := (Pass.calm_analyze func fun id => within_of_mem_body h.well hf).of_ok h.well.sound.ordered
    h.legible hanalyze
  have hf₁ : d₁.frames[func]? = some f := hanalyzed.frames ▸ hf
  have hcombined := (Pass.calm_combine func (congrArg Prod.fst (bounds_of_getElem? hf₁))
    fun id => within_of_mem_body hwell₁ hf₁).of_ok hanalyzed.ordered (hanalyzed.legible h.legible) hcombine
  have hprepared := hanalyzed.trans hcombined
  have hfBefore : before.frames[func]? = some f := hprepared.frames ▸ hf
  obtain ⟨hnames, htargets⟩ := h.charted hfound hcharted hprepared.longer hprepared.ordered fun _ => hprepared.op
  have hready : before.graph.Ready f.startItem f.endItem :=
    ⟨hprepared.ordered, (hwellBefore.fits f (List.mem_of_getElem? hfBefore)).ordered,
      fun _ _ => h.settled hprepared⟩
  obtain ⟨w, hcleared⟩ := Pass.exists_cleared_structureFunction hready (bounds_of_getElem? hfBefore)
    (fun id _ => htargets id) hstructure
  have hframes : after.frames = found.frames := by
    rw [Decompilation.frames, hcleared.functions, ← Decompilation.frames, hprepared.frames, h.frames]
  have hlegible : after.graph.Legible := by
    rw [hcleared.reached.graph]
    exact hcleared.leads.legible hready.ordered hnames (hprepared.legible h.legible)
  have hsigned : after.Calm f.startItem f.endItem d'' := (Pass.calm_addSignature
    ⟨hwellAfter.fits, hframes ▸ hfound.placed.framed.apart⟩).of_ok hwellAfter.sound.ordered hlegible hsign
  exact ⟨before, w, after, hf, hprepared, hready, hnames, hcleared, hsigned, hpreparing, hrecovering, by
    simp only [runPhases, List.foldl_cons, List.foldl_nil, Phase.run, hsign, final_ok]⟩

/-- When the function has been decompiled, too, its expressions stand in it, and its jumps have been replaced. -/
theorem concat {w : Recovery} {after : Decompilation} (hround : Round func f d before w after d') :
    found.Account (done ++ [func]) d' where
  well := hround.well h.well
  longer := h.longer.trans hround.longer
  op id hid := (hround.op (Nat.lt_of_lt_of_le hid h.longer.size)).trans (h.op id hid)
  frames := hround.frames.trans h.frames
  legible := by
    refine hround.signed.legible ?_
    rw [hround.cleared.reached.graph]
    exact hround.cleared.leads.legible hround.ready.ordered hround.names (hround.prepared.legible h.legible)
  expressions id hexpression := by
    by_cases hid : id < d.graph.size
    · rw [hround.expression hid] at hexpression
      obtain ⟨func', hfunc', hhas⟩ := h.expressions id hexpression
      exact ⟨func', List.mem_append_left _ hfunc', hhas.mono hround.longer hround.frames⟩
    · exact ⟨func, List.mem_append_right _ List.mem_cons_self, f, hround.frames ▸ hround.frame,
        hround.made (Nat.le_of_not_lt hid) hexpression⟩
  spent func' hfunc' id hhas hjump := by
    have hid := (h.longer.trans hround.longer).lt_of_isOpcodeItem (Item.isOpcodeItem_of_isJump hjump)
    have hid' := Nat.lt_of_lt_of_le hid h.longer.size
    rw [Item.isJump_of_opcodeItem? (hround.op hid')] at hjump
    rw [has_iff_of_extends h.well (hround.well h.well) hround.longer hround.frames hid'] at hhas
    rcases List.mem_append.1 hfunc' with hfunc' | hfunc'
    · exact hround.longer.processed id hid' (h.spent func' hfunc' id hhas hjump)
    · rw [List.mem_singleton.1 hfunc', has_iff hround.frame] at hhas
      rw [Item.isJump_of_opcodeItem? (h.op id hid)] at hjump
      -- The epilogue stands behind, so the jump leads somewhere.
      have hfits := hfound.placed.framed.fits f (List.mem_of_getElem? (h.frames ▸ hround.frame))
      have hfoundWithin := (h.longer.within_iff hfound.sound.ordered h.well.sound.ordered hfits.ordered hid).1 hhas
      obtain ⟨other, hother, hitem⟩ := hfits.behind
      have htarget := hcharted.leads id other (hfoundWithin.2.trans hfound.sound.ordered.nodup hother) hjump hitem
      have hop := (hround.prepared.op hid').trans (h.op id hid)
      have hspent := hround.cleared.spent id ((mem_body_iff (hround.wellBefore h.well)
        (hround.prepared.frames ▸ hround.frame)).2 ⟨f, hround.prepared.frames ▸ hround.frame,
          hhas.mono hround.prepared.longer.order⟩) ((Item.isJump_of_opcodeItem? hop).trans hjump)
        ((congrArg Option.isSome (Item.targetPos?_of_opcodeItem? hop)).trans htarget)
      rw [← hround.cleared.reached.graph] at hspent
      exact hround.signed.longer.processed id
        (Nat.lt_of_lt_of_le (Nat.lt_of_lt_of_le hid' hround.prepared.longer.size) hround.retains.longer.size) hspent

end Account

/-! ## All rounds -/

/-- The functions of `done` have been decompiled, one after the other. -/
inductive Rounds (found : Decompilation) : List Nat → Decompilation → Prop where
  | start : Rounds found [] found
  | round {done : List Nat} {d d' : Decompilation} {func : Nat} {callees : List Nat} (h : Rounds found done d)
      (hreaches : found.Reaches func) (hnew : func ∉ done) (hrun : Pass.decompileFunction func d = .ok callees d') :
      Rounds found (done ++ [func]) d'

namespace Rounds

theorem account (h : found.Rounds done d) (hfound : found.Surveyed) (hcharted : found.graph.Charted) :
    found.Account done d := by
  induction h with
  | start => exact .start hfound hcharted
  | round _ hreaches _ hrun ih =>
    obtain ⟨f, hf⟩ := hreaches.exists_frame
    obtain ⟨before, w, after, hround⟩ := ih.exists_round hfound hcharted hf hrun
    exact ih.concat hfound hcharted hround

/-- What a round establishes and the rounds of other functions keep holds in the end. -/
theorem of_mem {P : Decompilation → Prop} (h : found.Rounds done d) (hfound : found.Surveyed)
    (hcharted : found.graph.Charted) (hfunc : func ∈ done)
    (hown : ∀ done d before w after d' f callees, found.Rounds done d → found.Account done d → func ∉ done →
      Pass.decompileFunction func d = .ok callees d' → Round func f d before w after d' → P d')
    (hother : ∀ done d before w after d' func' f callees, found.Account done d → func' ≠ func →
      Pass.decompileFunction func' d = .ok callees d' → Round func' f d before w after d' → P d → P d') : P d := by
  induction h with
  | start => cases hfunc
  | @round done d d' func' callees h hreaches hnew hrun ih =>
    obtain ⟨f, hf⟩ := hreaches.exists_frame
    have haccount := h.account hfound hcharted
    obtain ⟨before, w, after, hround⟩ := haccount.exists_round hfound hcharted hf hrun
    by_cases hsame : func' = func
    · subst hsame
      exact hown done d before w after d' f callees h haccount hnew hrun hround
    · have hmem : func ∈ done := (List.mem_append.1 hfunc).resolve_right
        fun hfunc => hsame (List.mem_singleton.1 hfunc).symm
      exact hother done d before w after d' func' f callees haccount hsame hrun hround (ih hmem)

theorem exists_phases (h : found.Rounds done d) (hfound : found.Surveyed) (hcharted : found.graph.Charted) :
    ∃ phases, d = runPhases phases found := by
  induction h with
  | start => exact ⟨[], rfl⟩
  | round h hreaches _ hrun ih =>
    obtain ⟨f, hf⟩ := hreaches.exists_frame
    obtain ⟨before, w, after, hround⟩ := (h.account hfound hcharted).exists_round hfound hcharted hf hrun
    obtain ⟨phases, hphases⟩ := ih
    exact ⟨_, by rw [hround.phases, hphases, ← runPhases_append]⟩

/-- The functions that have been decompiled are those of which it is known that they have. -/
theorem exists_progress (h : found.Rounds done d) (hfound : found.Surveyed) :
    (∀ func ∈ done, found.Reaches func) ∧ ∃ entries, entries.map Prod.fst = done ∧ found.Progress entries d := by
  induction h with
  | start => exact ⟨fun _ hfunc => absurd hfunc List.not_mem_nil, [], rfl, progress_start hfound⟩
  | round _ hreaches hnew hrun ih =>
    obtain ⟨hdone, entries, rfl, hprogress⟩ := ih
    obtain ⟨f, hf⟩ := hreaches.exists_frame
    have hturned := hprogress.turned hfound hdone hf hnew
    rw [hrun] at hturned
    cases hturned with
    | @done opening _ _ hprogress' =>
      refine ⟨fun func hfunc => ?_, _, List.map_append, hprogress'⟩
      rcases List.mem_append.1 hfunc with hfunc | hfunc
      · exact hdone func hfunc
      · rwa [List.mem_singleton.1 hfunc]

end Rounds

/-- A queue that comes to its end has been worked off in rounds. -/
theorem exists_rounds_decompileQueue (hfound : found.Surveyed) (fuel : Nat) {queue : List Nat}
    {visited reached : List UInt16} (h : found.Rounds done d) (hqueue : ∀ func ∈ queue, found.Reaches func)
    (hvisited : found.Visited done visited) (hrun : Pass.decompileQueue fuel queue visited d = .ok reached d') :
    ∃ done, found.Rounds done d' := by
  induction fuel generalizing done queue visited d with
  | zero =>
    obtain ⟨-, rfl⟩ := pure_eq_ok.1 hrun
    exact ⟨done, h⟩
  | succ fuel ih =>
    cases queue with
    | nil =>
      obtain ⟨-, rfl⟩ := pure_eq_ok.1 hrun
      exact ⟨done, h⟩
    | cons func queue =>
      have hreaches := hqueue func List.mem_cons_self
      have hrest : ∀ func ∈ queue, found.Reaches func :=
        fun other hother => hqueue other (List.mem_cons_of_mem _ hother)
      obtain ⟨f, hf⟩ := hreaches.exists_frame
      obtain ⟨hdone, entries, hentries, hprogress⟩ := h.exists_progress hfound
      have hstart : Pass.functionStart d func = f.start := functionStart_of_getElem? (hprogress.frames ▸ hf)
      rw [Pass.decompileQueue, bind_of_ok (get_apply d), hstart] at hrun
      dsimp only at hrun
      split at hrun
      · exact ih h hrest hvisited hrun
      · rename_i hold
        have hnew : func ∉ done := fun hfunc => hold (List.contains_iff_mem.2 ((hvisited func f hf).2 hfunc))
        obtain ⟨callees, d₁, hfunction, hlater⟩ := bind_eq_ok.1 hrun
        have hturned := hprogress.turned hfound (hentries ▸ hdone) hf (hentries ▸ hnew)
        rw [hfunction] at hturned
        cases hturned with
        | @done opening calls _ hprogress' hcalls henters =>
          refine ih (h.round hreaches hnew hfunction) (fun other hother => ?_) (hvisited.cons hfound hf) hlater
          rcases List.mem_append.1 hother with hother | hother
          · exact hrest other hother
          · exact hreaches.tail (hfound.calls_of_mem hf hcalls henters (List.mem_of_mem_filter hother))

/-- A decompilation that ends without a fault has begun with the references. -/
theorem exists_collected {image : Image} {strings : List String} {options : NamingOptions}
    (h : Pass.decompile (.ofImage image strings options) = .ok () d) :
    ∃ collected, Pass.collectReferences (.ofImage image strings options) = .ok () collected := by
  have hstage : (ofImage image strings options).stage = .fresh := rfl
  unfold Pass.decompile at h
  rw [bind_of_ok (get_apply _)] at h
  simp only [hstage, reduceCtorEq, if_false, if_true] at h
  obtain ⟨_, collected, hcollect, -⟩ := bind_eq_ok.1 h
  exact ⟨collected, hcollect⟩

/-- A decompilation that ends without a fault has been done in rounds. -/
theorem exists_rounds_decompile {image : Image} {strings : List String} {options : NamingOptions}
    (h : Pass.decompile (.ofImage image strings options) = .ok () d) :
    (survey image strings options).graph.Charted ∧ ∃ done last reached,
      (survey image strings options).Rounds done last ∧
        d = runPhases [.dropping reached, .note .decompiled] last := by
  have hstage : (ofImage image strings options).stage = .fresh := rfl
  unfold Pass.decompile at h
  rw [bind_of_ok (get_apply _)] at h
  simp only [hstage, reduceCtorEq, if_false, if_true] at h
  obtain ⟨_, collected, hcollect, h⟩ := bind_eq_ok.1 h
  have hsurvey : collected.discoverFunctions.relabelCalls = survey image strings options := by
    rw [survey, hcollect, final_ok]
  refine ⟨charted_survey hcollect, ?_⟩
  rw [bind_of_ok (modify_apply _ _), bind_of_ok (get_apply _), hsurvey] at h
  cases hstart : (survey image strings options).functionIndex? startFunction with
  | none =>
    rw [hstart] at h
    cases h
  | some start =>
    rw [hstart] at h
    obtain ⟨reached, last, hqueue, h⟩ := bind_eq_ok.1 h
    have hvisited : (survey image strings options).Visited [] [] :=
      fun _ _ _ => iff_of_false List.not_mem_nil List.not_mem_nil
    obtain ⟨done, hrounds⟩ := exists_rounds_decompileQueue (surveyed_survey image strings options) _ .start
      (fun func hfunc => ⟨start, hstart, List.mem_singleton.1 hfunc ▸ .refl⟩) hvisited hqueue
    cases h
    exact ⟨done, last, reached, hrounds, rfl⟩

/-- How a decompilation has ended: after the rounds of functions the references to the others are dropped. -/
structure Ended (found : Decompilation) (done : List Nat) (last d : Decompilation) : Prop where
  surveyed : found.Surveyed
  charted : found.graph.Charted
  rounds : found.Rounds done last
  calm : ∀ start stop, last.Calm start stop d
  dropped : ∃ reached, d = runPhases [.dropping reached, .note .decompiled] last
  headed : ∀ func f, d.frames[func]? = some f → d.headers func ≠ [] → func ∈ done

theorem Ended.account {last : Decompilation} (h : Ended found done last d) : found.Account done last :=
  h.rounds.account h.surveyed h.charted

theorem Ended.dropping {last : Decompilation} (h : Ended found done last d) : ∃ phases, d = runPhases phases last :=
  h.dropped.imp' (fun reached => [.dropping reached, .note .decompiled]) fun _ hphases => hphases

theorem Ended.well {last : Decompilation} (h : Ended found done last d) : d.Well := by
  obtain ⟨phases, hphases⟩ := h.dropping
  rw [hphases]
  exact (h.account.well.runPhases phases).well

/-- The phases by which the functions of a conversation become known. -/
theorem survey_eq (image : Image) (strings : List String) (options : NamingOptions) :
    survey image strings options =
      runPhases [.references, .discovery, .relabeling] (.ofImage image strings options) := rfl

/-- A decompilation that ends without a fault has ended behind the rounds of the functions that have headers. -/
theorem exists_ended {image : Image} {strings : List String} {options : NamingOptions}
    (h : Pass.decompile (.ofImage image strings options) = .ok () d) :
    ∃ done last, Ended (survey image strings options) done last d := by
  have hfound := surveyed_survey image strings options
  obtain ⟨hcharted, done, last, reached, hrounds, rfl⟩ := exists_rounds_decompile h
  have haccount := hrounds.account hfound hcharted
  have hdropped := advances_dropAllUnreached haccount.well.sound reached
  refine ⟨done, last, hfound, hcharted, hrounds, fun start stop => ?_, ⟨_, rfl⟩, fun func f hf hheaders => ?_⟩
  · exact (calm_dropAllUnreached haccount.well.sound.ordered reached).congr rfl rfl rfl
  · obtain ⟨-, entries, rfl, hprogress⟩ := hrounds.exists_progress hfound
    have hend : (survey image strings options).Progress entries
        (runPhases [.dropping reached, .note .decompiled] last) :=
      hprogress.quiet ⟨hdropped.grows, hdropped.frames⟩
    by_contra hnew
    exact hheaders (hend.headers_eq_nil hfound (hend.frames ▸ hf) hnew)

end Decompilation

end Parley
