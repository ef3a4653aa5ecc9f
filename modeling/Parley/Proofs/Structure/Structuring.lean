import Parley.Decompile.Loop
import Parley.Decompile.Switch
import Parley.Decompile.Conditional
import Parley.Decompile.Signature
import Parley.Proofs.Structure.Frame
import Parley.Proofs.Structure.Ledger
import Mathlib.Data.Option.Basic
set_option autoImplicit false

/-!
# Blocks are written as a whole

Each pass that recovers control structures writes all lines of a block in one go, and the cases of a switch
between its first line and its last.  So the lines of a listing are those of whole blocks, wherever they stand.
None of the blocks is a function; the signature alone writes the lines around one.
-/

namespace Parley

namespace Graph

variable {g g' g'' : Graph} {condition id stop : ItemId}

/-! ## Writing whole blocks -/

/-- The second graph is the first one with more items, and the lines of blocks among them are those of whole
blocks, none of which is a function. -/
def Writes (g g' : Graph) : Prop :=
  ∃ lines blocks, Written lines blocks ∧ (∀ b ∈ blocks, b.kind ≠ .function) ∧ g.Grows lines g'

theorem Grows.writes (h : g.Grows [] g') : g.Writes g' :=
  ⟨[], [], .nil, fun _ hb => absurd hb List.not_mem_nil, h⟩

/-- One block is written. -/
theorem writes_single {kind : BlockKind} {opening closing : ItemId} (hkind : kind ≠ .function)
    (h : g.Grows [(opening, .opens kind), (closing, .closes kind)] g') : g.Writes g' :=
  ⟨_, _, Written.single kind opening closing, fun _ hb => List.mem_singleton.1 hb ▸ hkind, h⟩

theorem Writes.refl (hg : g.Sound) : g.Writes g := (Grows.refl hg).writes

theorem Writes.trans (h : g.Writes g') (h' : g'.Writes g'') : g.Writes g'' := by
  obtain ⟨lines, blocks, hwritten, hkinds, hgrows⟩ := h
  obtain ⟨lines', blocks', hwritten', hkinds', hgrows'⟩ := h'
  exact ⟨_, _, hwritten.append hwritten', fun b hb => (List.mem_append.1 hb).elim (hkinds b) (hkinds' b),
    hgrows.trans hgrows'⟩

theorem Writes.sound (h : g.Writes g') : g'.Sound := by
  obtain ⟨_, _, _, _, hgrows⟩ := h
  exact hgrows.sound

/-- Changes along a list that write whole blocks each. -/
theorem writes_foldl {f : Graph → ItemId → Graph} {ids : List ItemId} (hg : g.Sound)
    (hf : ∀ (g : Graph) id, g.Sound → g.Writes (f g id)) : g.Writes (ids.foldl f g) := by
  induction ids generalizing g with
  | nil => exact Writes.refl hg
  | cons id rest ih =>
    have hfirst := hf g id hg
    exact hfirst.trans (ih hfirst.sound)

/-! ## Items that conditions lead to -/

theorem site_of_openTarget? {opcode : Opcode} {target : UInt16}
    (h : g.openTarget? id opcode = some target) (hcall : opcode ≠ .call) : g.Site id := by
  unfold openTarget? at h
  dsimp only at h
  split at h
  · rename_i hopen
    exact site_of_isOpenOpcode hopen hcall
  · cases h

theorem site_of_onlyJumpTo {target : UInt16} {neighbour : Option ItemId}
    (h : g.onlyJumpTo target neighbour = some id) : g.Site id :=
  site_of_openTarget? (of_decide_eq_true (Option.filter_eq_some_iff.1 h).2) (by decide)

theorem site_of_onlyOpen {opcode : Opcode} {neighbour : Option ItemId}
    (h : g.onlyOpen opcode neighbour = some id) (hcall : opcode ≠ .call) : g.Site id :=
  site_of_isOpenOpcode (Option.filter_eq_some_iff.1 h).2 hcall

/-- A forward branch leads from an expression that nothing has consumed and from an instruction. -/
theorem sites_of_forwardBranch? {branch : Branch} (h : g.forwardBranch? condition stop = some branch) :
    g.Site condition ∧ g.Site branch.item := by
  simp only [forwardBranch?, Option.bind_eq_bind, Option.bind_eq_some_iff, Option.guard_eq_some',
    exists_const] at h
  obtain ⟨hopen, id, hid, hbeq, target, -, -, hbranch⟩ := h
  cases hbranch
  have hopcode : (g.item id).opcode? = some .beq := of_decide_eq_true hbeq
  refine ⟨site_of_isOpenExpression hopen,
    site_of_isOpcodeItem (Item.isOpcodeItem_of_opcode? hopcode) (by simp [hopcode])⟩

namespace Grows

variable {lines : List (ItemId × StatementRole)}

theorem mark (h : g.Grows lines g') (hid : g'.Site id) : g.Grows lines (g'.markProcessed id) :=
  h.silent (grows_markProcessed h.sound hid)

theorem markJump (h : g.Grows lines g') (target : UInt16) (neighbour : Graph → Option ItemId) :
    g.Grows lines (g'.markOptional (g'.onlyJumpTo target (neighbour g'))) :=
  h.silent (grows_markAll h.sound fun _ hid => site_of_onlyJumpTo (Option.mem_toList.1 hid))

theorem markOpen (h : g.Grows lines g') (opcode : Opcode) (hcall : opcode ≠ .call)
    (neighbour : Graph → Option ItemId) :
    g.Grows lines (g'.markOptional (g'.onlyOpen opcode (neighbour g'))) :=
  h.silent (grows_markAll h.sound fun _ hid => site_of_onlyOpen (Option.mem_toList.1 hid) hcall)

end Grows

/-! ## Lines -/

theorem grows_addLine (hg : g.Sound) {site : ItemId} (hsite : g.Place site) (statement : Statement)
    (hblock : statement.role.isBlock = true) (hrole : statement.role ≠ .opens .function)
    (hletter : statement.text.toList.head? ≠ some 'l') :
    g.Grows [(g.size, statement.role)] (g.addStatement site statement) := by
  have hgrows := grows_addStatement hg hsite ⟨fun _ => hletter, hrole⟩
  rwa [hblock] at hgrows

theorem grows_replaceByLine (hg : g.Sound) {site : ItemId} (hsite : g.Site site) (statement : Statement)
    (hblock : statement.role.isBlock = true) (hrole : statement.role ≠ .opens .function)
    (hletter : statement.text.toList.head? ≠ some 'l') :
    g.Grows [(g.size, statement.role)] (g.replaceByStatement site statement) := by
  have hgrows := grows_replaceByStatement hg hsite ⟨fun _ => hletter, hrole⟩
  rwa [hblock] at hgrows

end Graph

/-! ## Loops -/

namespace LoopWork

variable {g : Graph} {condition stop : ItemId}

theorem writes_structureWhile (work : LoopWork) (hg : work.graph.Sound) (stop condition : ItemId) :
    work.graph.Writes (structureWhile stop work condition).graph := by
  unfold structureWhile
  dsimp only
  split
  · exact Graph.Writes.refl hg
  · rename_i branch back hloop
    simp only [whileLoop?, Option.bind_eq_bind, Option.bind_eq_some_iff, Option.guard_eq_some',
      exists_const] at hloop
    obtain ⟨found, hfound, exit, -, site, -, target, htarget, -, -, hpair⟩ := hloop
    cases hpair
    obtain ⟨hcondition, hbranch⟩ := Graph.sites_of_forwardBranch? hfound
    have hopened := Graph.grows_replaceByLine hg hcondition
      ⟨openingLine "while" (work.graph.conditionText condition), .opens .whileLoop⟩
      rfl (by simp) (by simp [openingLine])
    have hmarked := hopened.mark (hopened.site hbranch)
    have hclosed := hmarked.trans (Graph.grows_replaceByLine hmarked.sound
      (hmarked.site (Graph.site_of_openTarget? htarget (by decide)))
      ⟨closingLine "end-while", .closes .whileLoop⟩ rfl (by simp)
      (by simp [closingLine, closeBrace]))
    exact Graph.writes_single (by decide) hclosed

theorem writes_structureDoWhile (work : LoopWork) (hg : work.graph.Sound) (stop condition : ItemId) :
    work.graph.Writes (structureDoWhile stop work condition).graph := by
  unfold structureDoWhile
  dsimp only
  split
  · exact Graph.Writes.refl hg
  · rename_i loop hloop
    simp only [doWhile?, Option.bind_eq_bind, Option.bind_eq_some_iff, Option.guard_eq_some',
      exists_const] at hloop
    obtain ⟨branch, hfound, jump, -, body, hbody, -, bodyItem, hbodyItem, hparts⟩ := hloop
    cases hparts
    obtain ⟨hcondition, hbranch⟩ := Graph.sites_of_forwardBranch? hfound
    have hopened := Graph.grows_addLine hg (hg.place_of_findPos? hbodyItem)
      ⟨"do " ++ openBrace, .opens .doWhile⟩ rfl (by simp) (by simp)
    generalize work.graph.addStatement bodyItem _ = opened at hopened ⊢
    have hclosed := hopened.trans (Graph.grows_replaceByLine hopened.sound (hopened.site hcondition)
      ⟨closeBrace ++ " while (" ++ opened.conditionText condition ++ ");",
        .closes .doWhile⟩ rfl (by simp) (by simp [closeBrace]))
    have hmarked := (hclosed.mark (hclosed.site hbranch)).mark
      ((hclosed.mark (hclosed.site hbranch)).site (Graph.site_of_openTarget? hbody (by decide)))
    exact Graph.writes_single (by decide)
      (hmarked.markOpen .jmp (by decide) (·.next? jump))

theorem writes_foldl {write : ItemId → LoopWork → ItemId → LoopWork} {stop : ItemId} {ids : List ItemId}
    (work : LoopWork) (hg : work.graph.Sound)
    (hwrite : ∀ (work : LoopWork) condition, work.graph.Sound →
      work.graph.Writes (write stop work condition).graph) :
    work.graph.Writes (ids.foldl (write stop) work).graph := by
  induction ids generalizing work with
  | nil => exact Graph.Writes.refl hg
  | cons id rest ih =>
    have hfirst := hwrite work id hg
    exact hfirst.trans (ih _ hfirst.sound)

end LoopWork

/-! ## Conditionals -/

namespace Graph

variable {g : Graph} {condition stop : ItemId} {branch : Branch} {parts : Conditional}

/-- The marks of a conditional in the plain form: the branch behind the first half, and jumps to the end directly
before it and at the end. -/
def plainMarks (g : Graph) (bra endAt : ItemId) (endPos : UInt16) : Graph :=
  let g := g.markProcessed bra
  let g := g.markOptional (g.onlyJumpTo endPos (g.prev? bra))
  g.markOptional (g.onlyJumpTo endPos (g.prevOpcode? endAt))

/-- The marks of a conditional in the inverted form: the jump that is skipped, a branch behind it, and one to the place
behind the target. -/
def invertedMarks (g : Graph) (branch : Branch) (target jump : ItemId) : Graph :=
  let g := g.markProcessed jump
  let g := g.markOptional (g.onlyOpen .bra (g.next? jump))
  g.markOptional (g.onlyJumpTo (branch.target + 2) (some target))

/-- What a branch makes of a condition, with and without a second half, in the plain and in the inverted form. -/
inductive Conditional.Made (g : Graph) (condition : ItemId) (branch : Branch) : Conditional → Prop where
  | plain {target : ItemId} (htarget : g.findPos? branch.target = some target) :
      Made g condition branch ⟨g, g.conditionText condition, none, target⟩
  | plainHalves {bra endAt : ItemId} {endPos : UInt16} (hbra : g.openTarget? bra .bra = some endPos)
      (hend : g.findPos? endPos = some endAt) :
      Made g condition branch ⟨g.plainMarks bra endAt endPos, (g.plainMarks bra endAt endPos).conditionText condition,
        (g.plainMarks bra endAt endPos).next? bra, endAt⟩
  | inverted {target jump endAt : ItemId} {endPos : UInt16} (hjump : g.openTarget? jump .jmp = some endPos)
      (hend : g.findPos? endPos = some endAt) :
      Made g condition branch ⟨g.invertedMarks branch target jump,
        negate (g.conditionText condition) (g.conditionPrecedence condition), none, endAt⟩
  | invertedHalves {target jump endAt last newEnd : ItemId} {endPos pastElse : UInt16}
      (hjump : g.openTarget? jump .jmp = some endPos) (hend : g.findPos? endPos = some endAt)
      (hlast : (g.invertedMarks branch target jump).openTarget? last .jmp = some pastElse)
      (hnewEnd : (g.invertedMarks branch target jump).findPos? pastElse = some newEnd) :
      Made g condition branch ⟨(g.invertedMarks branch target jump).markProcessed last,
        negate (g.conditionText condition) (g.conditionPrecedence condition), some endAt, newEnd⟩

theorem made_of_invertedConditional? {target jump : ItemId}
    (h : g.invertedConditional? condition branch target jump = some parts) : parts.Made g condition branch := by
  simp only [invertedConditional?, Option.bind_eq_bind, Option.bind_eq_some_iff] at h
  obtain ⟨endPos, hjump, endAt, hend, hparts⟩ := h
  split at hparts
  · rename_i last newEnd hpast
    cases hparts
    simp only [jumpPastElse?, Option.bind_eq_bind, Option.bind_eq_some_iff, Option.guard_eq_some',
      exists_const] at hpast
    obtain ⟨found, -, pastElse, hlast, -, -, past, hnewEnd, hpair⟩ := hpast
    cases hpair
    exact .invertedHalves hjump hend hlast hnewEnd
  · cases hparts
    exact .inverted hjump hend

theorem made_of_conditional? (h : g.conditional? condition branch = some parts) : parts.Made g condition branch := by
  simp only [conditional?, Option.bind_eq_bind, Option.bind_eq_some_iff] at h
  obtain ⟨target, htarget, h⟩ := h
  split at h
  · exact made_of_invertedConditional? h
  · simp only [conditionalWithElse?, Option.bind_eq_bind, Option.bind_eq_some_iff, Option.guard_eq_some',
      exists_const] at h
    obtain ⟨endPos, hbra, -, endAt, hend, hparts⟩ := h
    cases hparts
    exact .plainHalves hbra hend
  · cases h
    exact .plain htarget

/-- A conditional marks instructions only, and the places of its lines are items. -/
structure Conditional.Fits (parts : Conditional) (g : Graph) : Prop where
  grows : g.Grows [] parts.graph
  alternative : ∀ id, parts.alternative = some id → parts.graph.Place id
  endAt : parts.graph.Place parts.endAt

theorem grows_plainMarks (hg : g.Sound) {bra endAt : ItemId} {endPos : UInt16}
    (hbra : g.openTarget? bra .bra = some endPos) : g.Grows [] (g.plainMarks bra endAt endPos) :=
  (((Grows.refl hg).mark (site_of_openTarget? hbra (by decide))).markJump endPos (·.prev? bra)).markJump endPos
    (·.prevOpcode? endAt)

theorem grows_invertedMarks (hg : g.Sound) {target jump : ItemId} {endPos : UInt16}
    (hjump : g.openTarget? jump .jmp = some endPos) : g.Grows [] (g.invertedMarks branch target jump) :=
  (((Grows.refl hg).mark (site_of_openTarget? hjump (by decide))).markOpen .bra (by decide) (·.next? jump)).markJump
    (branch.target + 2) fun _ => some target

theorem Conditional.Made.fits (h : parts.Made g condition branch) (hg : g.Sound) : parts.Fits g := by
  cases h with
  | plain htarget => exact ⟨Grows.refl hg, fun id hid => (nomatch hid), hg.place_of_findPos? htarget⟩
  | @plainHalves bra endAt endPos hbra hend =>
    have hmarked : g.Grows [] (g.plainMarks bra endAt endPos) := grows_plainMarks hg hbra
    have hbra' := hmarked.site (site_of_openTarget? hbra (by decide))
    exact ⟨hmarked, fun id hid => hmarked.sound.place_of_next? hbra'.lt_size hbra'.statement hid,
      hmarked.place (hg.place_of_findPos? hend)⟩
  | @inverted target jump _ _ hjump hend =>
    have hmarked : g.Grows [] (g.invertedMarks branch target jump) := grows_invertedMarks hg hjump
    exact ⟨hmarked, fun id hid => (nomatch hid), hmarked.place (hg.place_of_findPos? hend)⟩
  | @invertedHalves target jump _ _ _ _ _ hjump hend hlast hnewEnd =>
    have hmarked : g.Grows [] (g.invertedMarks branch target jump) := grows_invertedMarks hg hjump
    have hlastMarked := grows_markProcessed hmarked.sound (site_of_openTarget? hlast (by decide))
    refine ⟨hmarked.silent hlastMarked, fun id hid => ?_, hlastMarked.place (hmarked.sound.place_of_findPos? hnewEnd)⟩
    rw [← Option.some.inj hid]
    exact hlastMarked.place (hmarked.place (hg.place_of_findPos? hend))

theorem writes_structureConditional (hg : g.Sound) (stop condition : ItemId) :
    g.Writes (structureConditional stop g condition) := by
  unfold structureConditional
  split
  · exact Writes.refl hg
  · rename_i branch parts hparts
    obtain ⟨found, hfound, hconditional⟩ := Option.bind_eq_some_iff.1 hparts
    simp only [Option.map_eq_some_iff, Prod.mk.injEq] at hconditional
    obtain ⟨made, hconditional, rfl, rfl⟩ := hconditional
    obtain ⟨hcondition, hbranch⟩ := sites_of_forwardBranch? hfound
    have hfits := (made_of_conditional? hconditional).fits hg
    have hmarked := (Grows.refl hfits.grows.sound).mark (hfits.grows.site hbranch)
    have hopened := hmarked.trans
      (grows_replaceByLine hmarked.sound (hmarked.site (hfits.grows.site hcondition))
        ⟨openingLine "if" made.text, .opens .ifThen⟩ rfl (by simp) (by simp [openingLine]))
    dsimp only
    split
    · rename_i site hsite
      have hhalved := hopened.trans (grows_addLine hopened.sound
        (hopened.place (hfits.alternative site (Option.filter_eq_some_iff.1 hsite).1))
        ⟨closeBrace ++ " else " ++ openBrace, .alternative⟩ rfl (by simp) (by simp [closeBrace]))
      have hclosed := hhalved.trans (grows_addLine hhalved.sound (hhalved.place hfits.endAt)
        ⟨closingLine "end-if", .closes .ifThen⟩ rfl (by simp) (by simp [closingLine, closeBrace]))
      exact ⟨_, _, Written.halves _ _ _, fun _ hb => List.mem_singleton.1 hb ▸ (by simp),
        hfits.grows.trans hclosed⟩
    · have hclosed := hopened.trans (grows_addLine hopened.sound (hopened.place hfits.endAt)
        ⟨closingLine "end-if", .closes .ifThen⟩ rfl (by simp) (by simp [closingLine, closeBrace]))
      exact writes_single (by decide) (hfits.grows.trans hclosed)

end Graph

/-! ## Switches -/

/-- The places of the lines of a case are items, and something stands before the next case. -/
structure SwitchCase.Fits (case : SwitchCase) (g : Graph) : Prop where
  branch : g.Site case.branch
  exit : g.Site case.exit
  extraExit : ∀ id, case.extraExit = some id → g.Site id
  next : ∃ id, id < g.size ∧ (g.item id).pos = case.next
  before : (g.item case.exit).pos < case.next

namespace SwitchCase.Fits

variable {g g' : Graph} {case : SwitchCase} {lines : List (ItemId × StatementRole)}

theorem grows (h : case.Fits g) (hgrows : g.Grows lines g') : case.Fits g' := by
  obtain ⟨id, hid, hpos⟩ := h.next
  refine ⟨hgrows.site h.branch, hgrows.site h.exit, fun extra hextra => hgrows.site (h.extraExit extra hextra),
    ⟨id, Nat.lt_of_lt_of_le hid hgrows.size, (hgrows.kept id hid).pos.trans hpos⟩, ?_⟩
  rw [(hgrows.kept _ h.exit.lt_size).pos]
  exact h.before

/-- There is an item before the next case. -/
theorem exists_before (hg : g.Sound) (h : case.Fits g) :
    ∃ site, (g.findPos? case.next).bind g.prev? = some site ∧ g.Place site := by
  obtain ⟨id, hid, hpos⟩ := h.next
  obtain ⟨next, hnext⟩ := Option.isSome_iff_exists.1 (hg.ordered.isSome_findPos? hid hpos)
  obtain ⟨hmem, hposNext⟩ := hg.ordered.of_findPos? hnext
  have hprecedes : Precedes g.order case.exit next :=
    hg.ordered.precedes_of_pos_lt h.exit.lt_size (hg.ordered.lt_of_mem hmem) (by
      rw [hposNext]
      exact h.before)
  obtain ⟨site, hsite⟩ := Option.isSome_iff_exists.1 (hg.ordered.isSome_prev? hprecedes)
  exact ⟨site, by rw [hnext, Option.bind_some, hsite], hg.place_of_prev? hnext hsite⟩

end SwitchCase.Fits

namespace Graph

variable {g : Graph} {condition stop : ItemId} {case : SwitchCase}

theorem Writes.fits {g' : Graph} (h : g.Writes g') (hcase : case.Fits g) : case.Fits g' := by
  obtain ⟨_, _, _, _, hgrows⟩ := h
  exact hcase.grows hgrows

theorem fits_switchCase? (hg : g.Sound) (h : g.switchCase? condition stop = some case) :
    g.Site condition ∧ case.Fits g := by
  simp only [switchCase?, Option.bind_eq_bind, Option.bind_eq_some_iff, Option.guard_eq_some',
    exists_const] at h
  obtain ⟨branch, hfound, next, hnext, exit, hexit, join, hjoin, -, hcase⟩ := h
  cases hcase
  obtain ⟨hcondition, hbranch⟩ := sites_of_forwardBranch? hfound
  obtain ⟨hmem, hpos⟩ := hg.ordered.of_findPos? hnext
  refine ⟨hcondition, hbranch, site_of_openTarget? hjoin (by decide), fun id hid => site_of_onlyJumpTo hid,
    ⟨next, hg.ordered.lt_of_mem hmem, hpos⟩, ?_⟩
  exact hg.ordered.pos_lt_findPos? hnext (hg.ordered.precedes_prev? (hg.ordered.lt_of_mem hmem) hexit)

theorem writes_writeCase (hg : g.Sound) (hcondition : g.Site condition) (hcase : case.Fits g) :
    g.Writes (g.writeCase condition case) := by
  have hopened (value : String) := grows_replaceByLine hg hcondition
    ⟨"case " ++ value ++ ":", .opens .case⟩ rfl (by simp) (by simp)
  have hjumps : ∀ id ∈ [case.branch, case.exit] ++ case.extraExit.toList, g.Site id := by
    intro id hid
    simp only [List.cons_append, List.nil_append, List.mem_cons, Option.mem_toList] at hid
    rcases hid with rfl | rfl | hid
    · exact hcase.branch
    · exact hcase.exit
    · exact hcase.extraExit id hid
  have hmarked (value : String) := (hopened value).silent
    (grows_markAll (hopened value).sound fun id hid => (hopened value).site (hjumps id hid))
  have hlast : g.Site (case.extraExit.getD case.exit) := by
    cases hextra : case.extraExit with
    | none => exact hcase.exit
    | some id => exact hcase.extraExit id hextra
  exact writes_single (by decide) ((hmarked _).trans (grows_replaceByLine (hmarked _).sound
    ((hmarked _).site hlast) ⟨"break;", .closes .case⟩ rfl (by simp) (by simp)))

theorem writes_writeCases (subject : String) (stop : ItemId) (fuel : Nat) (hg : g.Sound)
    (hcondition : g.Site condition) (hcase : case.Fits g) :
    g.Writes (writeCases subject stop fuel g condition case).1 ∧
      ∃ last : SwitchCase, last.next = (writeCases subject stop fuel g condition case).2 ∧
        last.Fits (writeCases subject stop fuel g condition case).1 := by
  induction fuel generalizing g condition case with
  | zero => exact ⟨Writes.refl hg, case, rfl, hcase⟩
  | succ fuel ih =>
    have hfirst := writes_writeCase hg hcondition hcase
    rw [writeCases]
    split
    · rename_i following next hfollowing
      simp only [followingCase?, Option.bind_eq_bind, Option.bind_eq_some_iff, Option.guard_eq_some',
        exists_const] at hfollowing
      obtain ⟨id, -, -, found, hfound, -, hpair⟩ := hfollowing
      cases hpair
      obtain ⟨hsite, hfits⟩ := fits_switchCase? hfirst.sound hfound
      obtain ⟨hrest, hlast⟩ := ih hfirst.sound hsite hfits
      exact ⟨hfirst.trans hrest, hlast⟩
    · exact ⟨hfirst, case, rfl, hfirst.fits hcase⟩

theorem writes_structureSwitch (hg : g.Sound) (stop first : ItemId) :
    g.Writes (structureSwitch stop g first) := by
  unfold structureSwitch
  split
  · exact Writes.refl hg
  · rename_i subject case hswitch
    split at hswitch
    · simp only [switchAt?, Option.bind_eq_bind, Option.bind_eq_some_iff] at hswitch
      obtain ⟨sides, -, found, hfound, -, -, hpair⟩ := hswitch
      cases hpair
      obtain ⟨hcondition, hfits⟩ := fits_switchCase? hg hfound
      have hopened := grows_replaceByLine hg hcondition
        ⟨openingLine "switch" sides.1, .opens .switch⟩ rfl (by simp) (by simp [openingLine])
      obtain ⟨⟨lines, blocks, hwritten, hkinds, hcases⟩, last, hnext, hlast⟩ :=
        writes_writeCases sides.1 stop g.size hopened.sound (hopened.site hcondition)
          (hfits.grows hopened)
      obtain ⟨site, hsite, hplace⟩ := hlast.exists_before hcases.sound
      rw [hnext] at hsite
      dsimp only
      rw [hsite]
      have hclosed := hcases.trans (grows_addLine hcases.sound hplace
        ⟨closingLine "end-switch", .closes .switch⟩ rfl (by simp) (by simp [closingLine, closeBrace]))
      refine ⟨_, _, hwritten.around .switch _ _, fun b hb => ?_, hopened.trans hclosed⟩
      rcases List.mem_append.1 hb with hb | hb
      · exact hkinds b hb
      · rw [List.mem_singleton.1 hb]
        simp
    · cases hswitch

end Graph

/-! ## Signatures -/

/-- A header does not begin like the name of a local variable. -/
theorem FunctionInfo.head?_header (info : FunctionInfo) (count : Nat) :
    (info.header count).toList.head? ≠ some 'l' := by
  unfold FunctionInfo.header
  cases info.returnType <;> simp [DataType.text]

namespace Graph

variable {g g' : Graph}

/-- The header of a function stands in a listing, with the brace that opens it directly below. -/
structure Heads (g : Graph) (f : Frame) (header opening : ItemId) : Prop where
  text : ∃ (info : FunctionInfo) (count : Nat), info.frame = f ∧ (g.item header).processed = false ∧
    (g.item header).statement? = some (.plain (info.header count))
  adjoins : Adjoins g.order header opening
  role : g.blockRole? opening = some (.opens .function)
  pos : (g.item opening).pos = f.start
  marked : (g.item f.startItem).processed = true

theorem Heads.grows {f : Frame} {header opening : ItemId} {lines : List (ItemId × StatementRole)}
    (h : g.Heads f header opening) (hg : g.Sound) (hgrows : g.Grows lines g') :
    g'.Heads f header opening := by
  have hheader := hgrows.kept header (hg.ordered.lt_of_mem h.adjoins.precedes.left_mem)
  have hlt := hg.ordered.lt_of_mem h.adjoins.precedes.right_mem
  have hstart : f.startItem < g.size := by
    by_contra hge
    have hmarked := h.marked
    rw [item_of_size_le (Nat.le_of_not_lt hge)] at hmarked
    cases hmarked
  obtain ⟨info, count, hframe, hopen, hstatement⟩ := h.text
  exact {
    text := ⟨info, count, hframe, hheader.shown _ hopen hstatement (info.head?_header count)⟩
    adjoins := hgrows.headed header opening h.role h.adjoins
    role := (hgrows.blockRole? hlt).trans h.role
    pos := (hgrows.kept opening hlt).pos.trans h.pos
    marked := (hgrows.kept _ hstart).processed h.marked }

/-- A header stands at the start of its function. -/
theorem Heads.pos_header {f : Frame} {header opening : ItemId} (h : g.Heads f header opening) (hg : g.Sound) :
    (g.item header).pos = f.start := by
  obtain ⟨header', behind, henclosed⟩ := hg.enclosed opening h.role
  obtain rfl : header' = header := h.adjoins.left_unique henclosed.above hg.ordered.nodup
  exact henclosed.posHeader.trans h.pos

/-- A header stays where it is when items that are no statements are marked. -/
theorem Heads.markAll {f : Frame} {header opening : ItemId} {ids : List ItemId} (h : g.Heads f header opening)
    (hids : ∀ id ∈ ids, (g.item id).statement? = none) :
    (g.modifyAll ids Item.markProcessed).Heads f header opening := by
  obtain ⟨info, count, hframe, hopen, hstatement⟩ := h.text
  have hsame : (g.modifyAll ids Item.markProcessed).item header = g.item header := by
    refine item_markAll_of_notMem g fun hmem => ?_
    rw [hids header hmem] at hstatement
    cases hstatement
  exact {
    text := ⟨info, count, hframe, hsame ▸ hopen, hsame ▸ hstatement⟩
    adjoins := by
      rw [order_markAll]
      exact h.adjoins
    role := by
      rw [blockRole?, blockLine?_markAll hids]
      exact h.role
    pos := (markAll_keeps (p := Item.pos) (fun _ => rfl) g ids opening).trans h.pos
    marked := by
      rw [item_markAll]
      split
      · rfl
      · exact h.marked }

theorem grows_foldl_addStatement {site : ItemId} (hg : g.Sound) (hsite : g.Place site)
    (texts : List String) :
    g.Grows [] (texts.foldl (fun g text => g.addStatement site (.plain text)) g) := by
  induction texts generalizing g with
  | nil => exact Grows.refl hg
  | cons text rest ih =>
    have hfirst := grows_addStatement hg hsite (unlike_plain text)
    exact hfirst.trans (ih hfirst.sound (hfirst.place hsite))

theorem grows_addBlankLine (hg : g.Sound) {id : ItemId} (hid : g.Site id)
    (hbehind : ∃ other, Precedes g.order id other) : g.Grows [] (g.addBlankLine id) := by
  obtain ⟨other, hother⟩ := hbehind
  obtain ⟨next, hnext⟩ := Option.isSome_iff_exists.1 (hg.ordered.isSome_next? hother)
  unfold addBlankLine
  rw [hnext]
  exact grows_addStatement hg (hg.place_of_next? hid.lt_size hid.statement hnext) (unlike_plain "")

/-- The brace that opens a function is put directly below a header. -/
theorem grows_addOpening (hg : g.Sound) {site header : ItemId} (hsite : g.Place site)
    (hadjoins : Adjoins g.order header site) (hstatement : (g.item header).statement?.isSome = true)
    (hpos : (g.item header).pos = (g.item site).pos) :
    g.Grows [(g.size, .opens .function)] (g.addStatement site ⟨openBrace, .opens .function⟩) := by
  have hlines : linesOf g.size (.ofKind (g.item site).pos (.statement ⟨openBrace, .opens .function⟩)) =
      [(g.size, .opens .function)] := linesOf_statement _ _ _
  refine grows_of_widens_insertBefore (hlines ▸ widens_insertBefore hg hsite rfl rfl (fun line hline => ?_)
    fun _ => ⟨header, hadjoins, hstatement, hpos⟩) ⟨nofun, nofun⟩
  obtain ⟨rfl, -⟩ := blockLine?_statement hline
  simp [openBrace]

/-- A header is put before the front boundary of a function, and directly below it the brace that opens the
function. -/
theorem heads_opening (hg : g.Sound) {info : FunctionInfo} (hfits : info.frame.Fits g) (count : Nat) :
    let headed := g.replaceByStatement info.startItem (.plain (info.header count))
    let opened := headed.addStatement info.startItem ⟨openBrace, .opens .function⟩
    g.Grows [(headed.size, .opens .function)] opened ∧ opened.Heads info.frame g.size headed.size := by
  have hstart : g.Site info.startItem := hfits.front_site hg
  have hheaded : g.Grows [] (g.replaceByStatement info.startItem (.plain (info.header count))) :=
    grows_replaceByStatement hg hstart (unlike_plain (info.header count))
  have hsize : (g.markProcessed info.startItem).size = g.size := size_modify g info.startItem _
  have hmarkedItem : (g.markProcessed info.startItem).item info.startItem =
      (g.item info.startItem).markProcessed := item_modify_self hstart.lt_size _
  have hline : (g.replaceByStatement info.startItem (.plain (info.header count))).item g.size =
      .ofKind (g.item info.startItem).pos (.statement (.plain (info.header count))) := by
    rw [← hsize, replaceByStatement, addStatement, item_insertBefore_new, hmarkedItem]
    rfl
  have hitem : (g.replaceByStatement info.startItem (.plain (info.header count))).item info.startItem =
      (g.item info.startItem).markProcessed := by
    rw [replaceByStatement, addStatement, item_insertBefore_of_ne, hmarkedItem]
    exact Nat.ne_of_lt (hsize ▸ hstart.lt_size)
  have hadjoins : Adjoins (g.replaceByStatement info.startItem (.plain (info.header count))).order g.size
      info.startItem := hsize ▸ adjoins_placeBefore_site ((hg.ordered.mem_order _).2 hstart.lt_size)
  generalize g.replaceByStatement info.startItem (.plain (info.header count)) = headed at *
  have hopened := grows_addOpening hheaded.sound (hheaded.site hstart).place hadjoins
    (by rw [hline]; rfl) (by rw [hline, hitem]; rfl)
  have hlt : g.size < headed.size := hheaded.sound.ordered.lt_of_mem hadjoins.precedes.left_mem
  refine ⟨hheaded.trans hopened, ⟨info, count, rfl, ?_⟩, ?_, ?_, ?_, ?_⟩
  · rw [addStatement, item_insertBefore_of_ne (Nat.ne_of_lt hlt), hline]
    exact ⟨rfl, rfl⟩
  · exact hadjoins.placeBefore_new hheaded.sound.ordered.nodup
  · rw [blockRole?, addStatement, item_insertBefore_new]
    rfl
  · rw [addStatement, item_insertBefore_new, hitem]
    exact hfits.posFront
  · have hmarked := (hopened.kept info.startItem (hheaded.lt_size hstart.lt_size)).processed
    exact hmarked (hitem ▸ rfl)

/-- The lines around the body of a function are those of a block. -/
theorem heads_addSignature (hg : g.Sound) {info : FunctionInfo} (hfits : info.frame.Fits g) :
    ∃ header opening closing,
      g.Grows [(opening, .opens .function), (closing, .closes .function)] (g.addSignature info) ∧
      (g.addSignature info).Heads info.frame header opening := by
  obtain ⟨hopened, hheads⟩ := heads_opening hg hfits (g.item info.startItem).xrefCount
  have hdeclared := grows_foldl_addStatement hopened.sound
    (hopened.site (hfits.front_site hg)).place info.declarations
  have hback := hdeclared.site (hopened.site (hfits.back_site hg))
  have hclosed := hdeclared.trans (grows_replaceByLine hdeclared.sound hback
    ⟨closingLine "end-function", .closes .function⟩ rfl (by simp) (by simp [closingLine, closeBrace]))
  obtain ⟨other, hother, -⟩ := hfits.behind
  have hblank := grows_addBlankLine hclosed.sound
    ((hopened.trans hclosed).site (hfits.back_site hg)) ⟨other, (hopened.trans hclosed).precedes hother⟩
  exact ⟨_, _, _, hopened.trans (hclosed.silent hblank), hheads.grows hopened.sound (hclosed.silent hblank)⟩

end Graph

/-! ## Passes -/

namespace Decompilation

variable {d d' d'' : Decompilation}

/-- The second decompilation is the first one with a longer listing, in which further lines of blocks are
those of whole blocks, none of which is a function, and with other knowledge about the functions. -/
structure Writes (d d' : Decompilation) : Prop where
  graph : d.graph.Writes d'.graph
  frames : d'.frames = d.frames

theorem Advances.writes (h : d.Advances [] d') : d.Writes d' := ⟨h.grows.writes, h.frames⟩

theorem Writes.trans (h : d.Writes d') (h' : d'.Writes d'') : d.Writes d'' :=
  ⟨h.graph.trans h'.graph, h'.frames.trans h.frames⟩

end Decompilation

namespace Pass

open Fallible

variable {d : Decompilation}

theorem writes_findSwitches (hd : d.graph.Sound) (func : Nat) : d.Writes (final (findSwitches func d)) :=
  ⟨Graph.writes_foldl hd fun _ id hg => Graph.writes_structureSwitch hg _ id, rfl⟩

theorem writes_findWhileLoops (hd : d.graph.Sound) (func : Nat) :
    d.Writes (final (findWhileLoops func d)) :=
  ⟨LoopWork.writes_foldl ⟨d.graph, d.loopRanges⟩ hd
    fun work id hg => LoopWork.writes_structureWhile work hg _ id, rfl⟩

theorem writes_findDoWhileLoops (hd : d.graph.Sound) (func : Nat) :
    d.Writes (final (findDoWhileLoops func d)) :=
  ⟨LoopWork.writes_foldl ⟨d.graph, d.loopRanges⟩ hd
    fun work id hg => LoopWork.writes_structureDoWhile work hg _ id, rfl⟩

theorem writes_findConditionals (hd : d.graph.Sound) (func : Nat) :
    d.Writes (final (findConditionals func d)) :=
  ⟨Graph.writes_foldl hd fun _ id hg => Graph.writes_structureConditional hg _ id, rfl⟩

/-- A function is written around its body. -/
theorem heads_addSignature (hd : d.graph.Sound) {func : Nat} {f : Frame} (hfunc : d.frames[func]? = some f)
    (hfits : f.Fits d.graph) :
    ∃ header opening closing, d.Advances [(opening, .opens .function), (closing, .closes .function)]
        (final (addSignature func d)) ∧
      (final (addSignature func d)).graph.Heads f header opening := by
  obtain ⟨info, hinfo, rfl⟩ := Option.map_eq_some_iff.1 ((d.getElem?_frames func).symm.trans hfunc)
  obtain ⟨header, opening, closing, hgrows, hheads⟩ := Graph.heads_addSignature hd hfits
  refine ⟨header, opening, closing, ?_⟩
  rw [addSignature, modify_apply, final_ok, hinfo]
  exact ⟨⟨hgrows, rfl⟩, hheads⟩

end Pass

end Parley
