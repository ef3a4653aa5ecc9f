import Parley.Proofs.Control.Round
import Parley.Proofs.Source.Decompile
set_option autoImplicit false

/-!
# Lines that continue a loop

A jump that is left is a continuation if some loop starts where it leads and its code range contains the jump.  So the
line stands inside of the loop, but it may stand inside of further loops in there, and the loop may be one with its
condition behind, which the line does not continue at the condition.
-/

namespace Parley

open Fallible Source

/-- Whether the blocks of the kind are loops. -/
def BlockKind.isLoop : BlockKind → Bool
  | .whileLoop | .doWhile => true
  | _ => false

namespace Graph

/-- An item shows a line of the control structure in a role. -/
def Plays (g : Graph) (id : ItemId) (role : StatementRole) : Prop :=
  ∃ line, (g.item id).controlLine? = some line ∧ line.role = role

/-- A listing shows the lines of a loop, which have been written one directly after the other. -/
structure Shows (g : Graph) (loop : Block) : Prop where
  kind : loop.kind.isLoop = true
  middle : loop.middle = none
  next : loop.closing = loop.opening + 1
  opens : g.Plays loop.opening (.opens loop.kind)
  closes : g.Plays loop.closing (.closes loop.kind)

/-- A loop starts at the position `head`, and all jumps behind that and before the position `tail` that nothing has
replaced stand in it. -/
structure Encloses (g : Graph) (loop : Block) (head tail : UInt16) : Prop where
  shown : g.Shows loop
  starts : (g.item loop.opening).pos = head
  inside : ∀ jump, (g.item jump).isOpenJump = true → head < (g.item jump).pos → (g.item jump).pos < tail →
    g.Within loop.opening loop.closing jump

/-- A line continues a loop: it stands for a jump in the loop to where the loop starts. -/
structure Resumes (g : Graph) (line jump : ItemId) (target : UInt16) (loop : Block) : Prop where
  reads : (g.item line).controlLine? = some ⟨"continue;", .continues⟩
  shown : g.Shows loop
  starts : (g.item loop.opening).pos = target
  unconditional : (g.item jump).isJump = true ∧ (g.item jump).isConditional = false
  leads : (g.item jump).targetPos? = some target
  pos : (g.item line).pos = (g.item jump).pos
  behind : target < (g.item jump).pos
  inside : g.Within loop.opening loop.closing line ∧ g.Within loop.opening loop.closing jump

/-- All code ranges are those of loops, and all lines that continue a loop stand in one. -/
structure Looped (g : Graph) (ranges : List (UInt16 × UInt16)) : Prop where
  ranges : ∀ range ∈ ranges, ∃ loop, g.Encloses loop range.1 range.2
  continues : ∀ line, g.Plays line .continues → ∃ jump target loop, g.Resumes line jump target loop

variable {g g' : Graph} {line jump id : ItemId} {loop : Block} {head tail target : UInt16}
  {ranges : List (UInt16 × UInt16)} {role : StatementRole}

theorem Plays.lt_size (h : g.Plays id role) : id < g.size := by
  obtain ⟨line, hline, -⟩ := h
  exact Item.lt_size_of_controlLine? hline

/-! ### Loops among the blocks -/

theorem Plays.blockRole? (h : g.Plays id role) (hblock : role.isBlock = true) : g.blockRole? id = some role := by
  obtain ⟨line, hline, rfl⟩ := h
  obtain ⟨hopen, hstatement, -⟩ := Item.controlLine?_eq_some.1 hline
  simp [Graph.blockRole?, Item.blockLine?, hopen, hstatement, Option.filter, hblock]

/-- A loop is one of the blocks of its listing. -/
theorem Shows.mem_blocks (h : g.Shows loop) : loop ∈ g.blocks := by
  obtain ⟨kind, opening, middle, closing⟩ := loop
  obtain ⟨-, hmiddle, hnext, hopens, hcloses⟩ := h
  dsimp only at hmiddle hnext hopens hcloses
  subst hmiddle hnext
  exact mem_blocks_of_adjacent (hopens.blockRole? rfl) (hcloses.blockRole? rfl)

/-! ### Longer listings -/

theorem Plays.mono (h : g.Plays id role) (hcarries : g.Carries g') : g'.Plays id role := by
  obtain ⟨line, hline, hrole⟩ := h
  exact ⟨line, (hcarries.controlLine? id (Item.lt_size_of_controlLine? hline)).trans hline, hrole⟩

theorem Shows.mono (h : g.Shows loop) (hcarries : g.Carries g') : g'.Shows loop :=
  ⟨h.kind, h.middle, h.next, h.opens.mono hcarries, h.closes.mono hcarries⟩

theorem Encloses.mono (h : g.Encloses loop head tail) (hcarries : g.Carries g') : g'.Encloses loop head tail := by
  obtain ⟨hshown, hhead, hinside⟩ := h
  refine ⟨hshown.mono hcarries, (hcarries.pos_eq hshown.opens.lt_size).trans hhead, fun jump hopen hlow hhigh => ?_⟩
  have hopen := hcarries.isOpenJump_of hopen
  rw [hcarries.pos_eq (bare_of_isOpenJump hopen).1] at hlow hhigh
  exact (hinside jump hopen hlow hhigh).mono hcarries.longer.order

theorem Resumes.mono (h : g.Resumes line jump target loop) (hcarries : g.Carries g') :
    g'.Resumes line jump target loop := by
  obtain ⟨hreads, hshown, hhead, ⟨hjump, hconditional⟩, hleads, hpos, hbehind, hinside⟩ := h
  have hline := Item.lt_size_of_controlLine? hreads
  have hlt := lt_size_of_isOpcodeItem (Item.isOpcodeItem_of_isJump hjump)
  have hop := hcarries.opcodeItem? jump hlt
  refine ⟨(hcarries.controlLine? line hline).trans hreads, hshown.mono hcarries,
    (hcarries.pos_eq hshown.opens.lt_size).trans hhead,
    ⟨(Item.isJump_of_opcodeItem? hop).trans hjump, (Item.isConditional_of_opcodeItem? hop).trans hconditional⟩,
    (Item.targetPos?_of_opcodeItem? hop).trans hleads, ?_, ?_, hinside.1.mono hcarries.longer.order,
    hinside.2.mono hcarries.longer.order⟩
  · rw [hcarries.pos_eq hline, hcarries.pos_eq hlt, hpos]
  · rwa [hcarries.pos_eq hlt]

/-- A listing that gets longer by no lines of the control structure. -/
theorem Looped.mono (h : g.Looped ranges) (hcarries : g.Carries g')
    (hlines : ∀ id, (g'.item id).controlLine? = (g.item id).controlLine?) : g'.Looped ranges where
  ranges range hrange := (h.ranges range hrange).imp fun _ hencloses => hencloses.mono hcarries
  continues line hline := by
    obtain ⟨jump, target, loop, hresumes⟩ := h.continues line (by rwa [Plays, ← hlines line])
    exact ⟨jump, target, loop, hresumes.mono hcarries⟩

end Graph

/-! ## What a deed continues -/

/-- A line that is put plays its role. -/
theorem Graph.Overlays.plays {g g' : Graph} {marks : List ItemId} {puts : List Put} (h : g.Overlays marks puts g')
    {i : Nat} {put : Put} (hput : puts[i]? = some put) (hcontrol : put.statement.role.isControl = true) :
    g'.Plays (g.size + i) put.statement.role :=
  ⟨put.statement, h.controlLine?_iff.2 (Or.inr ⟨hcontrol, i, put.site, hput, rfl⟩), rfl⟩

/-- An open jump before the jump that ends a loop stands before the condition of the loop. -/
theorem LoopWork.precedes_condition {g : Graph} {condition stop jump : ItemId} {loop : DoWhile} (hg : g.Ordered)
    (hstop : Precedes g.order condition stop) (hloop : doWhile? g condition stop = some loop)
    (hopen : (g.item jump).isOpenJump = true) (hlt : (g.item jump).pos < (g.item loop.jump).pos) :
    Precedes g.order jump condition := by
  obtain ⟨hforward, hnext, -⟩ := of_doWhile? hloop
  obtain ⟨hcondition, hfirst, hbranch, -⟩ := Graph.of_forwardBranch? hforward
  obtain ⟨-, hbehind, -, hspent⟩ := Graph.of_nextOpenOpcode? hg hstop hfirst
  obtain ⟨hjump, hunspent⟩ := Item.isJump_of_isOpenJump hopen
  have hitem := Item.isOpcodeItem_of_isJump hjump
  have hend := Graph.bare_of_isOpenJump (isOpenJump_of_doWhile? hloop)
  -- The jump that ends the loop stands directly behind the branch, so the other one stands before that.
  have hbefore : Precedes g.order jump loop.branch.item := by
    refine ((hg.adjoins_next? (Graph.bare_of_isOpenOpcode hbranch).1 hnext).eq_or_precedes_left hg.nodup
      (hg.precedes_of_pos_lt (Graph.lt_size_of_isOpcodeItem hitem) hend.1 hlt)).resolve_left ?_
    rintro rfl
    have hconditional := Item.isConditional_of_isOpenJump hopen
    rw [Item.isConditional, Item.opcode?_of_isOpenOpcode hbranch] at hconditional
    cases hconditional
  have hne : jump ≠ condition := by
    rintro rfl
    rw [Item.isOpenExpression, Bool.and_eq_true] at hcondition
    rw [Item.isOpcodeItem, (Item.of_expression? hcondition.2).1] at hitem
    cases hitem
  -- Nothing is open between the condition and the branch.
  refine (precedes_total hbefore.left_mem hbehind.left_mem hne).resolve_right fun hafter => ?_
  rw [hspent jump hafter hbefore hitem] at hunspent
  cases hunspent

/-- A line of a deed that continues a loop is put for an open jump to a position that is known as the head of one. -/
theorem Deed.Fits.of_continues {start stop : ItemId} {w : Recovery} {deed : Deed} (h : deed.Fits start stop w)
    {i : Nat} {put : Put} (hput : deed.puts[i]? = some put) (hrole : put.statement.role = .continues) :
    put.statement = ⟨"continue;", .continues⟩ ∧
      ∃ target, (w.graph.item put.site).isOpenJump = true ∧
      (w.graph.item put.site).targetPos? = some target ∧ ∃ tail, (target, tail) ∈ w.ranges ∧
        target < (w.graph.item put.site).pos ∧ (w.graph.item put.site).pos < tail := by
  have hmem := List.mem_of_getElem? hput
  cases h with
  | @continues jump target hjump htarget hrange =>
    rw [List.mem_singleton.1 hmem]
    obtain ⟨⟨head, tail⟩, hmem, hwithin⟩ := List.any_eq_true.1 hrange
    simp only [Bool.and_eq_true, decide_eq_true_eq] at hwithin
    obtain ⟨⟨rfl, hlow⟩, hhigh⟩ := hwithin
    exact ⟨rfl, head, hjump, htarget, tail, hmem, hlow, hhigh⟩
  | conditional =>
    simp only [puts, List.cons_append, List.nil_append, List.mem_cons, List.mem_append, List.mem_map,
      List.not_mem_nil, or_false] at hmem
    rcases hmem with rfl | ⟨site, -, rfl⟩ | rfl <;> cases hrole
  | _ =>
    simp only [puts, caseLines, List.mem_cons, List.not_mem_nil, or_false] at hmem
    rcases hmem with rfl | rfl | rfl <;> cases hrole

namespace Recovery

open Parley.Graph

variable {start stop : ItemId} {w w' : Recovery} {deed : Deed} {head tail : UInt16}

/-- A loop that is written encloses its code. -/
theorem Does.exists_encloses (h : w.Does start stop deed w') (hg : w.graph.Ordered)
    (hrange : deed.range? w.graph = some (head, tail)) : ∃ loop, w'.graph.Encloses loop head tail := by
  obtain ⟨hfits, hoverlays, -, -, -⟩ := h
  have hnodup := hoverlays.ordered.nodup
  cases hfits with
  | @whileLoop c branch back condition =>
    cases hrange
    have hopens := hoverlays.put 0 _ rfl
    have hcloses := hoverlays.put 1 _ rfl
    refine ⟨⟨.whileLoop, w.graph.size, none, w.graph.size + 1⟩,
      ⟨rfl, rfl, rfl, hoverlays.plays (i := 0) rfl rfl, hoverlays.plays (i := 1) rfl rfl⟩,
      (congrArg Item.pos hopens.item).trans rfl, fun jump hopen hlow hhigh => ?_⟩
    have hjump := (bare_of_isOpenJump (hoverlays.isOpenJump_of hopen)).1
    rw [hoverlays.pos_eq hjump] at hlow hhigh
    exact ⟨hopens.before.trans hnodup ((hg.precedes_of_pos_lt hopens.site hjump hlow).mono hoverlays.order),
      hcloses.behind jump (hg.precedes_of_pos_lt hjump hcloses.site hhigh)⟩
  | @doWhile c loop extra condition hbranch hloop =>
    cases hrange
    have hopens := hoverlays.put 0 _ rfl
    have hcloses := hoverlays.put 1 _ rfl
    have hpos := (hg.of_findPos? (LoopWork.of_doWhile? hloop).2.2.2.2).2
    refine ⟨⟨.doWhile, w.graph.size, none, w.graph.size + 1⟩,
      ⟨rfl, rfl, rfl, hoverlays.plays (i := 0) rfl rfl, hoverlays.plays (i := 1) rfl rfl⟩,
      (congrArg Item.pos hopens.item).trans hpos, fun jump hopen hlow hhigh => ?_⟩
    have hopen' := hoverlays.isOpenJump_of hopen
    have hjump := (bare_of_isOpenJump hopen').1
    rw [hoverlays.pos_eq hjump] at hlow hhigh
    exact ⟨hopens.before.trans hnodup ((hg.precedes_of_pos_lt hopens.site hjump (hpos ▸ hlow)).mono hoverlays.order),
      hcloses.behind jump (LoopWork.precedes_condition hg condition.within.2 hloop hopen' hhigh)⟩
  | _ => cases hrange

/-- With each deed code ranges stay those of loops, and lines that continue a loop stand in one. -/
theorem Does.looped (h : w.Does start stop deed w') (hg : w.graph.Ordered) (hlooped : w.graph.Looped w.ranges) :
    w'.graph.Looped w'.ranges := by
  have hcarries := h.overlays.retains.toCarries
  refine ⟨fun range hrange => ?_, fun line hline => ?_⟩
  · rw [h.ranges, List.mem_append, Option.mem_toList] at hrange
    rcases hrange with hnew | hold
    · exact h.exists_encloses hg hnew
    · exact (hlooped.ranges range hold).imp fun _ hencloses => hencloses.mono hcarries
  · obtain ⟨statement, hstatement, hrole⟩ := hline
    rcases h.overlays.controlLine?_iff.1 hstatement with hold | ⟨-, i, site, hput, rfl⟩
    · obtain ⟨jump, target, loop, hresumes⟩ := hlooped.continues line ⟨statement, hold, hrole⟩
      exact ⟨jump, target, loop, hresumes.mono hcarries⟩
    · obtain ⟨rfl, target, hopen, htarget, tail, hmem, hlow, hhigh⟩ := h.fits.of_continues hput hrole
      obtain ⟨loop, hencloses⟩ := hlooped.ranges _ hmem
      have hholds := h.overlays.put i _ hput
      have hin := hencloses.inside site hopen hlow hhigh
      obtain ⟨hshown, hhead, -⟩ := hencloses.mono hcarries
      have hop := hcarries.opcodeItem? site hholds.site
      have hpos := hcarries.pos_eq hholds.site
      -- The line stands directly before the jump that it is put for.
      refine ⟨site, target, loop, hstatement, hshown, hhead,
        ⟨(Item.isJump_of_opcodeItem? hop).trans (Item.isJump_of_isOpenJump hopen).1,
          (Item.isConditional_of_opcodeItem? hop).trans (Item.isConditional_of_isOpenJump hopen)⟩,
        (Item.targetPos?_of_opcodeItem? hop).trans htarget, ?_, hpos.symm ▸ hlow,
        ⟨hholds.behind _ hin.1, hholds.before.trans h.overlays.ordered.nodup (hin.2.mono hcarries.longer.order)⟩,
        hin.mono hcarries.longer.order⟩
      rw [hholds.item, hpos]
      rfl

theorem Leads.looped (h : w.Leads start stop w') (hg : w.graph.Ordered) (hlooped : w.graph.Looped w.ranges) :
    w'.graph.Looped w'.ranges := by
  induction h with
  | refl => exact hlooped
  | tail hleads hstep ih =>
    obtain ⟨deed, hdoes⟩ := hstep
    exact hdoes.looped (Leads.retains hleads hg).ordered ih

end Recovery

/-! ## The loops of all functions -/

namespace Decompilation

variable {found d d' : Decompilation}

/-- When the functions of a conversation become known, no loops have been written. -/
theorem loopRanges_survey (image : Image) (strings : List String) (options : NamingOptions) :
    (survey image strings options).loopRanges = [] := by
  have hblind : Pass.Blind Decompilation.loopRanges := fun _ _ _ _ => rfl
  have hcollected := hblind.collectReferences (ofImage image strings options)
  rw [survey]
  generalize final (Pass.collectReferences (ofImage image strings options)) = d at hcollected ⊢
  obtain ⟨_, _, hdiscovered⟩ := exists_discoverFrom d.graph.size d.graph.first? d
  obtain ⟨_, hrelabelled⟩ := exists_relabelCalls d.discoverFunctions
  rw [hrelabelled, discoverFunctions, hdiscovered]
  exact hcollected

theorem looped_start (hcharted : found.graph.Charted) (hranges : found.loopRanges = []) :
    found.graph.Looped found.loopRanges where
  ranges range hrange := by
    rw [hranges] at hrange
    cases hrange
  continues line := by
    rintro ⟨statement, hline, -⟩
    rw [Item.controlLine?_of_statement? (hcharted.unreduced line).2] at hline
    cases hline

theorem Calm.looped {start stop : ItemId} (h : d.Calm start stop d') (hd : d.graph.Looped d.loopRanges) :
    d'.graph.Looped d'.loopRanges := by
  rw [h.ranges]
  exact hd.mono h.carries h.lines

end Decompilation

theorem Round.looped {func : Nat} {f : Frame} {d before after d' : Decompilation} {w : Recovery}
    (h : Round func f d before w after d') (hd : d.graph.Looped d.loopRanges) :
    d'.graph.Looped d'.loopRanges := by
  refine h.signed.looped ?_
  rw [h.cleared.reached.graph, h.cleared.reached.ranges]
  exact h.cleared.leads.looped h.ready.ordered (h.prepared.looped hd)

namespace Decompilation

variable {found d : Decompilation} {done : List Nat}

theorem Rounds.looped (h : found.Rounds done d) (hfound : found.Surveyed) (hcharted : found.graph.Charted)
    (hranges : found.loopRanges = []) : d.graph.Looped d.loopRanges := by
  induction h with
  | start => exact looped_start hcharted hranges
  | round h hreaches hnew hrun ih =>
    obtain ⟨f, hf⟩ := hreaches.exists_frame
    obtain ⟨before, w, after, hround⟩ := (h.account hfound hcharted).exists_round hfound hcharted hf hrun
    exact hround.looped ih

end Decompilation

/-- A line that continues a loop stands in that loop.  It has been written for a jump that leads back to where the loop
starts: to the condition of a loop with its condition in front, or to the body of one with its condition behind.  The
jump stands in the loop as well. -/
theorem continues_inside_loop {image : Image} {strings : List String} {options : NamingOptions} {d : Decompilation}
    (h : Pass.decompile (.ofImage image strings options) = .ok () d) {line : ItemId}
    (hline : d.graph.Plays line .continues) :
    ∃ jump target, ∃ loop ∈ d.graph.blocks, d.graph.Resumes line jump target loop := by
  obtain ⟨done, last, hended⟩ := Decompilation.exists_ended h
  have hlooped := hended.rounds.looped hended.surveyed hended.charted (Decompilation.loopRanges_survey _ _ _)
  obtain ⟨jump, target, loop, hresumes⟩ := ((hended.calm 0 0).looped hlooped).continues line hline
  exact ⟨jump, target, loop, hresumes.shown.mem_blocks, hresumes⟩

/-- The innermost of the loops that an item stands in is the one that is opened last before it. -/
structure Graph.Innermost (g : Graph) (loop : Block) (id : ItemId) : Prop where
  listed : loop ∈ g.blocks
  kind : loop.kind.isLoop = true
  inside : g.Within loop.opening loop.closing id
  last : ∀ other ∈ g.blocks, other.kind.isLoop = true → g.Within other.opening other.closing id →
    other = loop ∨ Precedes g.order other.opening loop.opening

/-- The innermost loop can be found among the blocks. -/
instance (g : Graph) (loop : Block) (id : ItemId) : Decidable (g.Innermost loop id) :=
  decidable_of_iff (loop ∈ g.blocks ∧ loop.kind.isLoop = true ∧ g.Within loop.opening loop.closing id ∧
      ∀ other ∈ g.blocks, other.kind.isLoop = true → g.Within other.opening other.closing id →
        other = loop ∨ Precedes g.order other.opening loop.opening)
    ⟨fun ⟨hlisted, hkind, hinside, hlast⟩ => ⟨hlisted, hkind, hinside, hlast⟩,
      fun h => ⟨h.listed, h.kind, h.inside, h.last⟩⟩

/-- A loop with its condition behind, and in it a loop in which a jump leads to the start of the outer one. -/
def nestedLoops : Image := .ofCode (encode (prologueCode 1 ++
  ([⟨.pushiEff, some 1⟩, ⟨.pushi, some 7⟩, ⟨.sto, none⟩, ⟨.pushi, some 1⟩, ⟨.beq, some 5⟩, ⟨.jmp, some 5⟩,
    ⟨.bra, some 0xfff9⟩, ⟨.pushi, some 1⟩, ⟨.beq, some 3⟩, ⟨.jmp, some 5⟩] ++ epilogueCode))).toArray

/-- The loop that the line continues is the outer one. -/
theorem continues_inside_loop_nestedLoops :
    ∃ d, Pass.decompile (.ofImage nestedLoops [] ⟨false, .empty⟩) = .ok () d ∧ d.graph.Plays 29 .continues ∧
      ∃ jump, ∃ loop ∈ d.graph.blocks, loop.kind = .doWhile ∧ d.graph.Resumes 29 jump 5 loop := by
  obtain ⟨d, hd, hasked⟩ := decompilesTo_iff.1 (show decompilesTo nestedLoops (fun d =>
    ((d.graph.item 29).controlLine?.map (·.role) = some .continues ∧ (d.graph.item 29).pos = 14) ∧
      (∀ jump ∈ d.graph.order, (d.graph.item jump).isJump = true → (d.graph.item jump).pos = 14 →
        (d.graph.item jump).targetPos? = some 5) ∧
      ∀ loop ∈ d.graph.blocks, (d.graph.item loop.opening).pos = 5 → loop.kind.isLoop = true → loop.kind = .doWhile) =
        true by decide +kernel)
  obtain ⟨⟨hrole, hpos⟩, hjumps, hloops⟩ := of_decide_eq_true hasked
  have hline : d.graph.Plays 29 .continues := Option.map_eq_some_iff.1 hrole
  obtain ⟨jump, target, loop, hloop, hresumes⟩ := continues_inside_loop hd hline
  have htarget := hjumps jump hresumes.inside.2.1.right_mem hresumes.unconditional.1 (hresumes.pos.symm.trans hpos)
  obtain rfl : target = 5 := Option.some.inj (hresumes.leads.symm.trans htarget)
  exact ⟨d, hd, hline, jump, loop, hloop, hloops loop hloop hresumes.starts hresumes.shown.kind, hresumes⟩

/-- The innermost loop around the line is another one, which starts elsewhere, and the outer one is no loop with its
condition in front.  So read as C the line goes to the condition of the inner loop and the jump does not. -/
theorem not_innermost_nestedLoops :
    ∃ d, Pass.decompile (.ofImage nestedLoops [] ⟨false, .empty⟩) = .ok () d ∧ d.JumpsInside ∧
      d.graph.liveStatements.map (·.text) = ["void start() // referenced 1 times", openBrace, "int local_1;",
        "do " ++ openBrace, "local_1 = 7;", "while (1) " ++ openBrace, "continue;", closeBrace ++ " // end-while",
        closeBrace ++ " while (1);", closeBrace ++ " // end-function", ""] ∧
      (d.graph.item 29).controlLine? = some ⟨"continue;", .continues⟩ ∧
      (d.graph.item 9).isJump = true ∧ (d.graph.item 9).pos = (d.graph.item 29).pos ∧
      (d.graph.item 9).targetPos? = some 5 ∧
      (∃ loop, d.graph.Innermost loop 9) ∧
      ∀ loop, d.graph.Innermost loop 9 → loop.kind = .whileLoop ∧ (d.graph.item loop.opening).pos = 10 := by
  obtain ⟨d, hd, hasked⟩ := decompilesTo_iff.1 (show decompilesTo nestedLoops (fun d => d.JumpsInside ∧
    d.graph.liveStatements.map (·.text) = ["void start() // referenced 1 times", openBrace, "int local_1;",
      "do " ++ openBrace, "local_1 = 7;", "while (1) " ++ openBrace, "continue;", closeBrace ++ " // end-while",
      closeBrace ++ " while (1);", closeBrace ++ " // end-function", ""] ∧
    (d.graph.item 29).controlLine? = some ⟨"continue;", .continues⟩ ∧
    (d.graph.item 9).isJump = true ∧ (d.graph.item 9).pos = (d.graph.item 29).pos ∧
    (d.graph.item 9).targetPos? = some 5 ∧ (∃ loop ∈ d.graph.blocks, d.graph.Innermost loop 9) ∧
    ∀ loop ∈ d.graph.blocks, d.graph.Innermost loop 9 →
      loop.kind = .whileLoop ∧ (d.graph.item loop.opening).pos = 10) = true by decide +kernel)
  obtain ⟨hinside, htexts, hline, hjump, hpos, htarget, ⟨loop, -, hloop⟩, hloops⟩ := of_decide_eq_true hasked
  exact ⟨d, hd, hinside, htexts, hline, hjump, hpos, htarget, ⟨loop, hloop⟩,
    fun loop hloop => hloops loop hloop.listed hloop⟩

end Parley
