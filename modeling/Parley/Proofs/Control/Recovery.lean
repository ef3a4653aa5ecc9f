import Parley.Proofs.Control.Deed
import Parley.Proofs.Structure.Structuring
import Mathlib.Data.Option.Basic
set_option autoImplicit false

/-!
# The passes of the recovery consist of deeds

For each pass that recovers control structures it is said once which deeds it does.  All conditions that are tried
stand in the function.  That is so for the condition of a case that follows another one as well: it stands directly
behind the open jump at the end of that case, and no other function has such a jump before an expression.
-/

namespace Parley

namespace Graph

variable {g g' : Graph} {start stop condition id : ItemId} {marks : List ItemId} {puts : List Put}

/-- A listing whose control structures may be recovered between two boundaries. -/
structure Ready (start stop : ItemId) (g : Graph) : Prop where
  ordered : g.Ordered
  bounds : Precedes g.order start stop
  settled : ∀ jump id, Adjoins g.order jump id → (g.item jump).isOpenOpcode .jmp = true →
    (g.item id).isOpenExpression = true → g.Within start stop id

/-- An item that may be marked: it is there, and it is no statement. -/
def Bare (g : Graph) (id : ItemId) : Prop := id < g.size ∧ (g.item id).statement? = none

theorem bare_of_isOpenExpression (h : (g.item id).isOpenExpression = true) : g.Bare id :=
  ⟨(site_of_isOpenExpression h).lt_size, (site_of_isOpenExpression h).statement⟩

theorem bare_of_isOpcodeItem (h : (g.item id).isOpcodeItem = true) : g.Bare id :=
  ⟨lt_size_of_isOpcodeItem h, Item.statement?_of_isOpcodeItem h⟩

theorem bare_of_isOpenOpcode {opcode : Opcode} (h : (g.item id).isOpenOpcode opcode = true) : g.Bare id :=
  bare_of_isOpcodeItem (Item.isOpcodeItem_of_opcode? (Item.opcode?_of_isOpenOpcode h))

theorem conditionText_eq {e : Expr} (h : (g.item id).expression? = some e) : g.conditionText id = e.text := by
  rw [conditionText, h]

theorem conditionPrecedence_eq {e : Expr} (h : (g.item id).expression? = some e) :
    g.conditionPrecedence id = e.precedence := by
  rw [conditionPrecedence, h]

theorem Overlays.ready (h : g.Overlays marks puts g') (hg : g.Ready start stop) : g'.Ready start stop where
  ordered := h.ordered
  bounds := hg.bounds.mono h.order
  settled jump id hadjoins hjump hopen := by
    have hjump' := h.isOpenOpcode_of hjump
    have hopen' := h.isOpenExpression_of hopen
    have hadjoins' := h.extends.adjoins hg.ordered h.ordered (bare_of_isOpenOpcode hjump').1
      (bare_of_isOpenExpression hopen').1 hadjoins
    exact (hg.settled jump id hadjoins' hjump' hopen').mono h.order

end Graph

/-! ## Conditions -/

namespace Condition.Fits

variable {g : Graph} {start stop : ItemId} {c : Condition}

theorem isOpenExpression (h : c.Fits start stop g) : (g.item c.item).isOpenExpression = true := by
  rw [Item.isOpenExpression, h.opened, h.expression]
  rfl

theorem bare (h : c.Fits start stop g) : g.Bare c.item := Graph.bare_of_isOpenExpression h.isOpenExpression

theorem bareBranch (h : c.Fits start stop g) : g.Bare c.branch :=
  Graph.bare_of_isOpcodeItem (Item.isOpcodeItem_of_isConditional h.conditional)

theorem text (h : c.Fits start stop g) : g.conditionText c.item = c.expression.text :=
  Graph.conditionText_eq h.expression

end Condition.Fits

namespace Graph

variable {g : Graph} {start stop condition id : ItemId} {branch : Branch}

theorem of_nextOpenOpcode? (hg : g.Ordered) (hstop : Precedes g.order condition stop)
    (h : g.nextOpenOpcode? condition stop = some id) :
    (g.item id).processed = false ∧ Precedes g.order condition id ∧ Precedes g.order id stop ∧
      ∀ other, Precedes g.order condition other → Precedes g.order other id → (g.item other).isOpcodeItem = true →
        (g.item other).processed = true := by
  unfold nextOpenOpcode? at h
  obtain ⟨hopen, front, behind, hsplit, hfront⟩ := List.find?_eq_some_iff_append.1 h
  rw [Bool.and_eq_true, Bool.not_eq_true'] at hopen
  have hmem : id ∈ g.between condition stop := hsplit ▸ List.mem_append_right _ List.mem_cons_self
  obtain ⟨hbehind, hbefore⟩ := (hg.mem_between hstop).1 hmem
  refine ⟨hopen.1, hbehind, hbefore, fun other hother hid hop => ?_⟩
  have hbetween : other ∈ g.between condition stop :=
    (hg.mem_between hstop).2 ⟨hother, hid.trans hg.nodup hbefore⟩
  have hsub : (front ++ id :: behind).Sublist g.order := hsplit ▸ g.sublist_between condition stop
  have hmem' : other ∈ front := by
    rw [hsplit] at hbetween
    exact (precedes_split_left (hg.nodup.sublist hsub)).1
      (hid.of_sublist hg.nodup hsub hbetween (List.mem_append_right _ List.mem_cons_self))
  have hnot := hfront other hmem'
  rwa [hop, Bool.and_true, Bool.not_not] at hnot

/-- A forward branch stands behind an expression that nothing has consumed, and is the first instruction there that
nothing has replaced. -/
theorem of_forwardBranch? (h : g.forwardBranch? condition stop = some branch) :
    (g.item condition).isOpenExpression = true ∧ g.nextOpenOpcode? condition stop = some branch.item ∧
      (g.item branch.item).isOpenOpcode .beq = true ∧ (g.item branch.item).pos = branch.pos ∧
      (g.item branch.item).targetPos? = some branch.target ∧ branch.pos < branch.target := by
  simp only [forwardBranch?, Option.bind_eq_bind, Option.bind_eq_some_iff, Option.guard_eq_some',
    exists_const] at h
  obtain ⟨hcondition, id, hid, hbeq, target, htarget, hforward, hbranch⟩ := h
  cases hbranch
  have hopen := List.find?_some hid
  rw [Bool.and_eq_true] at hopen
  exact ⟨hcondition, hid, by rw [Item.isOpenOpcode, hopen.1, hbeq]; rfl, rfl, htarget, hforward⟩

/-- A forward branch tests a condition of the function. -/
theorem fits_of_forwardBranch? (hg : g.Ordered) (hwithin : g.Within start stop condition)
    (h : g.forwardBranch? condition stop = some branch) :
    ∃ e, (⟨condition, e, branch.item⟩ : Condition).Fits start stop g := by
  obtain ⟨hopen, hbranch, hbeq, -⟩ := of_forwardBranch? h
  rw [Item.isOpenExpression, Bool.and_eq_true, Bool.not_eq_true'] at hopen
  obtain ⟨e, he⟩ := Option.isSome_iff_exists.1 hopen.2
  obtain ⟨hopenBranch, hbehind, hbefore, -⟩ := of_nextOpenOpcode? hg hwithin.2 hbranch
  refine ⟨e, hopen.1, he, hwithin, hopenBranch, ?_, hwithin.1.trans hg.nodup hbehind, hbefore⟩
  rw [Item.isConditional, Item.opcode?_of_isOpenOpcode hbeq]
  rfl

/-! ## Jumps -/

theorem of_openTarget? {opcode : Opcode} {target : UInt16} (h : g.openTarget? id opcode = some target) :
    (g.item id).isOpenOpcode opcode = true ∧ (g.item id).targetPos? = some target := by
  unfold openTarget? at h
  dsimp only at h
  split at h
  · rename_i hopen
    exact ⟨hopen, h⟩
  · cases h

theorem isOpenJump_of_openTarget? {target : UInt16} {opcode : Opcode} (hopcode : opcode = .jmp ∨ opcode = .bra)
    (h : g.openTarget? id opcode = some target) :
    (g.item id).isOpenJump = true ∧ (g.item id).targetPos? = some target := by
  obtain ⟨hopen, htarget⟩ := of_openTarget? h
  refine ⟨?_, htarget⟩
  rw [Item.isOpenJump, Bool.or_eq_true]
  rcases hopcode with rfl | rfl
  · exact Or.inl hopen
  · exact Or.inr hopen

theorem isOpenJump_of_onlyJumpTo {target : UInt16} {neighbour : Option ItemId}
    (h : g.onlyJumpTo target neighbour = some id) : (g.item id).isOpenJump = true :=
  (isOpenJump_of_openTarget? (Or.inl rfl) (of_decide_eq_true (Option.filter_eq_some_iff.1 h).2)).1

theorem isOpenJump_of_onlyOpen {opcode : Opcode} {neighbour : Option ItemId} (hopcode : opcode = .jmp ∨ opcode = .bra)
    (h : g.onlyOpen opcode neighbour = some id) : (g.item id).isOpenJump = true := by
  have hopen := (Option.filter_eq_some_iff.1 h).2
  rw [Item.isOpenJump, Bool.or_eq_true]
  rcases hopcode with rfl | rfl
  · exact Or.inl hopen
  · exact Or.inr hopen

theorem bare_of_isOpenJump (h : (g.item id).isOpenJump = true) : g.Bare id := by
  rw [Item.isOpenJump, Bool.or_eq_true] at h
  exact h.elim bare_of_isOpenOpcode bare_of_isOpenOpcode

/-- A jump that nothing has replaced has been so before. -/
theorem Carries.isOpenJump_of {g' : Graph} (h : g.Carries g') (hopen : (g'.item id).isOpenJump = true) :
    (g.item id).isOpenJump = true := by
  rw [Item.isOpenJump, Bool.or_eq_true] at hopen ⊢
  exact hopen.imp h.isOpenOpcode_of h.isOpenOpcode_of

theorem Overlays.isOpenJump_of {g' : Graph} {marks : List ItemId} {puts : List Put} (h : g.Overlays marks puts g')
    (hopen : (g'.item id).isOpenJump = true) : (g.item id).isOpenJump = true :=
  h.retains.toCarries.isOpenJump_of hopen

end Graph

/-! ## Loops -/

namespace LoopWork

variable {g : Graph} {condition stop : ItemId}

/-- The branch at the end of a loop is open. -/
theorem isOpenJump_of_whileLoop? {branch : Branch} {back : ItemId}
    (h : whileLoop? g condition stop = some (branch, back)) : (g.item back).isOpenJump = true := by
  simp only [whileLoop?, Option.bind_eq_bind, Option.bind_eq_some_iff, Option.guard_eq_some', exists_const] at h
  obtain ⟨found, -, exit, -, site, -, target, htarget, -, -, hpair⟩ := h
  cases hpair
  exact (Graph.isOpenJump_of_openTarget? (Or.inr rfl) htarget).1

/-- The parts of a loop with its condition behind. -/
theorem of_doWhile? {loop : DoWhile} (h : doWhile? g condition stop = some loop) :
    g.forwardBranch? condition stop = some loop.branch ∧ g.next? loop.branch.item = some loop.jump ∧
      g.openTarget? loop.jump .jmp = some loop.body ∧ loop.body ≤ loop.branch.pos ∧
      g.findPos? loop.body = some loop.bodyItem := by
  simp only [doWhile?, Option.bind_eq_bind, Option.bind_eq_some_iff, Option.guard_eq_some', exists_const] at h
  obtain ⟨branch, hbranch, jump, hjump, body, hbody, hle, bodyItem, hbodyItem, hsame⟩ := h
  cases hsame
  exact ⟨hbranch, hjump, hbody, hle, hbodyItem⟩

/-- The jump to the body of a loop is open. -/
theorem isOpenJump_of_doWhile? {loop : DoWhile} (h : doWhile? g condition stop = some loop) :
    (g.item loop.jump).isOpenJump = true :=
  (Graph.isOpenJump_of_openTarget? (Or.inl rfl) (of_doWhile? h).2.2.1).1

/-- A loop with its condition behind is written by one deed.  A jump directly behind the loop that was open is marked
with it. -/
theorem overlays_structureDoWhile {work : LoopWork} {loop : DoWhile} {e : Expr} (hg : work.graph.Ordered)
    (he : (work.graph.item condition).expression? = some e)
    (hloop : doWhile? work.graph condition stop = some loop) :
    ∃ extra : Option ItemId, (∀ id, extra = some id →
        (work.graph.item id).isOpenOpcode .jmp = true ∧ Adjoins work.graph.order loop.jump id) ∧
      work.graph.Overlays (Deed.doWhile ⟨condition, e, loop.branch.item⟩ loop extra).marks
        (Deed.doWhile ⟨condition, e, loop.branch.item⟩ loop extra).puts (structureDoWhile stop work condition).graph ∧
      (structureDoWhile stop work condition).ranges =
        ((Deed.doWhile ⟨condition, e, loop.branch.item⟩ loop extra).range? work.graph).toList ++ work.ranges := by
  obtain ⟨hbranch, -, -, -, hbodyItem⟩ := of_doWhile? hloop
  have hjump := Graph.bare_of_isOpenJump (isOpenJump_of_doWhile? hloop)
  obtain ⟨hcondition, -, hbranch, -⟩ := Graph.of_forwardBranch? hbranch
  have hcondition := Graph.bare_of_isOpenExpression hcondition
  have hbranch := Graph.bare_of_isOpenOpcode hbranch
  unfold structureDoWhile
  dsimp only
  rw [hloop]
  dsimp only
  have hopened := (Graph.Overlays.refl hg).add (hg.lt_of_mem (hg.of_findPos? hbodyItem).1)
    ⟨"do " ++ openBrace, .opens .doWhile⟩
  have htext : (work.graph.addStatement loop.bodyItem ⟨"do " ++ openBrace, .opens .doWhile⟩).conditionText condition =
      e.text := Graph.conditionText_eq ((hopened.expression?_eq hcondition.1).trans he)
  rw [htext]
  have hjumps : ∀ id ∈ [loop.branch.item, loop.jump], work.graph.Bare id :=
    List.forall_mem_cons.2 ⟨hbranch, List.forall_mem_singleton.2 hjump⟩
  have hmarked := (hopened.replace hcondition.1 hcondition.2
    ⟨closeBrace ++ " while (" ++ e.text ++ ");", .closes .doWhile⟩).markAll hjumps
  generalize Graph.modifyAll _ [loop.branch.item, loop.jump] Item.markProcessed = marked at hmarked ⊢
  -- A second jump directly behind the first one stood there before.
  have hextra (id : ItemId) (hid : marked.onlyOpen .jmp (marked.next? loop.jump) = some id) :
      (work.graph.item id).isOpenOpcode .jmp = true ∧ Adjoins work.graph.order loop.jump id := by
    obtain ⟨hbehind, hopen⟩ := Option.filter_eq_some_iff.1 hid
    have hopen' := hmarked.isOpenOpcode_of hopen
    exact ⟨hopen', hmarked.extends.adjoins hg hmarked.ordered hjump.1 (Graph.bare_of_isOpenOpcode hopen').1
      (hmarked.ordered.adjoins_next? (hmarked.lt_size hjump.1) hbehind)⟩
  exact ⟨marked.onlyOpen .jmp (marked.next? loop.jump), hextra,
    hmarked.markOptional fun id hid => Graph.bare_of_isOpenOpcode (hextra id hid).1, rfl⟩

end LoopWork

namespace Recovery

variable {start stop condition : ItemId} {w : Recovery}

theorem leads_of_does (deed : Deed) {w' : Recovery} (h : w.Does start stop deed w') : w.Leads start stop w' :=
  Relation.ReflTransGen.single ⟨deed, h⟩

theorem leads_structureWhile (hg : w.graph.Ready start stop) (hwithin : w.graph.Within start stop condition) :
    w.Leads start stop { w with toLoopWork := LoopWork.structureWhile stop w.toLoopWork condition } := by
  unfold LoopWork.structureWhile
  dsimp only
  split
  · exact Relation.ReflTransGen.refl
  · rename_i branch back hloop
    have hback := Graph.bare_of_isOpenJump (LoopWork.isOpenJump_of_whileLoop? hloop)
    have hparts := hloop
    simp only [LoopWork.whileLoop?, Option.bind_eq_bind, Option.bind_eq_some_iff, Option.guard_eq_some',
      exists_const] at hparts
    obtain ⟨found, hfound, exit, -, site, -, target, -, -, -, hpair⟩ := hparts
    cases hpair
    obtain ⟨e, hfits⟩ := Graph.fits_of_forwardBranch? hg.ordered hwithin hfound
    refine leads_of_does (.whileLoop ⟨condition, e, branch.item⟩ back)
      ⟨.whileLoop hfits rfl hloop, ?_, rfl, rfl, rfl⟩
    rw [hfits.text]
    exact (((Graph.Overlays.refl hg.ordered).replace hfits.bare.1 hfits.bare.2 _).mark hfits.bareBranch.1
      hfits.bareBranch.2).replace hback.1 hback.2 _

theorem leads_structureDoWhile (hg : w.graph.Ready start stop) (hwithin : w.graph.Within start stop condition) :
    w.Leads start stop { w with toLoopWork := LoopWork.structureDoWhile stop w.toLoopWork condition } := by
  cases hloop : LoopWork.doWhile? w.graph condition stop with
  | none =>
    rw [LoopWork.structureDoWhile, hloop]
    exact Relation.ReflTransGen.refl
  | some loop =>
    obtain ⟨e, hfits⟩ := Graph.fits_of_forwardBranch? hg.ordered hwithin (LoopWork.of_doWhile? hloop).1
    obtain ⟨extra, hextra, hoverlays, hranges⟩ := LoopWork.overlays_structureDoWhile hg.ordered hfits.expression hloop
    exact leads_of_does _ ⟨.doWhile hfits rfl hloop fun id hid =>
      ⟨by rw [Item.isOpenJump, (hextra id hid).1, Bool.true_or], (hextra id hid).2⟩, hoverlays, hranges, rfl, rfl⟩

end Recovery

/-! ## Conditionals -/

namespace Graph

variable {g g' : Graph} {start stop condition id : ItemId} {branch : Branch} {jumps : List ItemId} {parts : Conditional}
  {e : Expr}

/-- The second listing is the first one with jumps marked that nothing had replaced. -/
structure Consumes (g : Graph) (jumps : List ItemId) (g' : Graph) : Prop where
  overlays : g.Overlays jumps [] g'
  opened : ∀ id ∈ jumps, (g.item id).isOpenJump = true

namespace Consumes

theorem refl (hg : g.Ordered) : g.Consumes [] g := ⟨.refl hg, fun _ h => absurd h List.not_mem_nil⟩

theorem markOptional (h : g.Consumes jumps g') {id? : Option ItemId}
    (hid : ∀ id, id? = some id → (g'.item id).isOpenJump = true) :
    g.Consumes (jumps ++ id?.toList) (g'.markOptional id?) := by
  have hopen (id : ItemId) (hsome : id? = some id) := h.overlays.isOpenJump_of (hid id hsome)
  refine ⟨h.overlays.markOptional fun id hsome => bare_of_isOpenJump (hopen id hsome), fun id hmem => ?_⟩
  exact (List.mem_append.1 hmem).elim (h.opened id) fun hmem => hopen id (Option.mem_toList.1 hmem)

theorem mark (h : g.Consumes jumps g') (hid : (g'.item id).isOpenJump = true) :
    g.Consumes (jumps ++ [id]) (g'.markProcessed id) := by
  have hopen (other : ItemId) (hsome : some id = some other) : (g'.item other).isOpenJump = true :=
    Option.some.inj hsome ▸ hid
  exact h.markOptional hopen

theorem markJump (h : g.Consumes jumps g') (target : UInt16) (neighbour : Graph → Option ItemId) :
    g.Consumes (jumps ++ (g'.onlyJumpTo target (neighbour g')).toList)
      (g'.markOptional (g'.onlyJumpTo target (neighbour g'))) :=
  h.markOptional fun _ => isOpenJump_of_onlyJumpTo

end Consumes

/-- A conditional consumes jumps only, it tests the condition or its negation, and the places of its lines are
items. -/
structure Conditional.Explains (parts : Conditional) (g : Graph) (e : Expr) : Prop where
  consumes : ∃ jumps, g.Consumes jumps parts.graph
  text : parts.text = e.text ∨ parts.text = negate e.text e.precedence
  alternative : ∀ id, parts.alternative = some id → id < g.size
  endAt : parts.endAt < g.size

theorem Ordered.lt_of_findPos? (hg : g.Ordered) {pos : UInt16} (h : g.findPos? pos = some id) : id < g.size :=
  hg.lt_of_mem (hg.of_findPos? h).1

theorem consumes_plainMarks (hg : g.Ordered) {bra endAt : ItemId} {endPos : UInt16}
    (hbra : g.openTarget? bra .bra = some endPos) : ∃ jumps, g.Consumes jumps (g.plainMarks bra endAt endPos) :=
  ⟨_, (((Consumes.refl hg).mark (isOpenJump_of_openTarget? (Or.inr rfl) hbra).1).markJump endPos
    (·.prev? bra)).markJump endPos (·.prevOpcode? endAt)⟩

theorem consumes_invertedMarks (hg : g.Ordered) {target jump : ItemId} {endPos : UInt16}
    (hjump : g.openTarget? jump .jmp = some endPos) : ∃ jumps, g.Consumes jumps (g.invertedMarks branch target jump) := by
  have hbra (id : ItemId) (hid : (g.markProcessed jump).onlyOpen .bra ((g.markProcessed jump).next? jump) = some id) :=
    isOpenJump_of_onlyOpen (Or.inr rfl) hid
  exact ⟨_, (((Consumes.refl hg).mark (isOpenJump_of_openTarget? (Or.inl rfl) hjump).1).markOptional hbra).markJump
    (branch.target + 2) fun _ => some target⟩

theorem Conditional.Made.explains (h : parts.Made g condition branch) (hg : g.Ordered)
    (he : (g.item condition).expression? = some e) : parts.Explains g e := by
  have htext : negate (g.conditionText condition) (g.conditionPrecedence condition) = negate e.text e.precedence := by
    rw [conditionText_eq he, conditionPrecedence_eq he]
  cases h with
  | plain htarget =>
    exact ⟨⟨[], .refl hg⟩, Or.inl (conditionText_eq he), fun id hid => (nomatch hid), hg.lt_of_findPos? htarget⟩
  | @plainHalves bra endAt endPos hbra hend =>
    obtain ⟨jumps, hmarked⟩ : ∃ jumps, g.Consumes jumps (g.plainMarks bra endAt endPos) := consumes_plainMarks hg hbra
    have hcondition : condition < g.size := lt_size_of_kind fun hkind => by simp [Item.expression?, hkind] at he
    have hbra' := (bare_of_isOpenJump (isOpenJump_of_openTarget? (Or.inr rfl) hbra).1).1
    refine ⟨⟨jumps, hmarked⟩, Or.inl (conditionText_eq ((hmarked.overlays.expression?_eq hcondition).trans he)),
      fun id hid => ?_, hg.lt_of_findPos? hend⟩
    have hbehind := hmarked.overlays.ordered.precedes_next? (hmarked.overlays.lt_size hbra') hid
    exact Nat.lt_of_lt_of_eq (hmarked.overlays.ordered.lt_of_mem hbehind.right_mem) hmarked.overlays.size
  | @inverted target jump _ _ hjump hend =>
    obtain ⟨jumps, hmarked⟩ : ∃ jumps, g.Consumes jumps (g.invertedMarks branch target jump) :=
      consumes_invertedMarks hg hjump
    exact ⟨⟨jumps, hmarked⟩, Or.inr htext, fun id hid => (nomatch hid), hg.lt_of_findPos? hend⟩
  | @invertedHalves target jump _ _ _ _ _ hjump hend hlast hnewEnd =>
    obtain ⟨jumps, hmarked⟩ : ∃ jumps, g.Consumes jumps (g.invertedMarks branch target jump) :=
      consumes_invertedMarks hg hjump
    refine ⟨⟨_, hmarked.mark (isOpenJump_of_openTarget? (Or.inl rfl) hlast).1⟩, Or.inr htext, fun id hid => ?_,
      Nat.lt_of_lt_of_eq (hmarked.overlays.ordered.lt_of_findPos? hnewEnd) hmarked.overlays.size⟩
    rw [← Option.some.inj hid]
    exact hg.lt_of_findPos? hend

end Graph

namespace Recovery

variable {start stop condition : ItemId} {w : Recovery}

theorem leads_structureConditional (hg : w.graph.Ready start stop) (hwithin : w.graph.Within start stop condition) :
    w.Leads start stop { w with graph := Graph.structureConditional stop w.graph condition } := by
  unfold Graph.structureConditional
  split
  · exact Relation.ReflTransGen.refl
  · rename_i branch parts hparts
    obtain ⟨found, hfound, hconditional⟩ := Option.bind_eq_some_iff.1 hparts
    simp only [Option.map_eq_some_iff, Prod.mk.injEq] at hconditional
    obtain ⟨made, hconditional, rfl, rfl⟩ := hconditional
    obtain ⟨e, hfits⟩ := Graph.fits_of_forwardBranch? hg.ordered hwithin hfound
    obtain ⟨⟨jumps, hconsumes⟩, htext, halternative, hend⟩ :=
      (Graph.made_of_conditional? hconditional).explains hg.ordered hfits.expression
    have hopened := (hconsumes.overlays.mark hfits.bareBranch.1 hfits.bareBranch.2).replace hfits.bare.1
      hfits.bare.2 ⟨openingLine "if" made.text, .opens .ifThen⟩
    rw [List.append_assoc] at hopened
    refine leads_of_does (.conditional ⟨condition, e, found.item⟩ made.text jumps
      (made.alternative.filter (· ≠ made.endAt)) made.endAt)
      ⟨.conditional hfits htext hconsumes.opened, ?_, rfl, rfl, rfl⟩
    dsimp only
    split
    · rename_i site hsite
      rw [Deed.puts, hsite]
      exact (hopened.add (halternative site (Option.filter_eq_some_iff.1 hsite).1) _).add hend _
    · rename_i hsite
      rw [Deed.puts, hsite]
      exact hopened.add hend _

end Recovery

/-! ## Switches -/

/-- The jumps at the end of a case. -/
def SwitchCase.exits (case : SwitchCase) : List ItemId := case.exit :: case.extraExit.toList

/-- The foremost jump at the end of a case. -/
def SwitchCase.lastLine (case : SwitchCase) : ItemId := case.extraExit.getD case.exit

theorem SwitchCase.lastLine_mem_exits (case : SwitchCase) : case.lastLine ∈ case.exits := by
  unfold lastLine exits
  cases case.extraExit <;> simp

/-- The jumps at the end of a case are open, and an expression where the next case starts stands in the function. -/
structure SwitchCase.Stands (start stop : ItemId) (g : Graph) (case : SwitchCase) : Prop where
  exits : ∀ id ∈ case.exits, (g.item id).isOpenJump = true
  next : ∀ id, g.findPos? case.next = some id → (g.item id).isOpenExpression = true → g.Within start stop id

namespace Graph

variable {g g' : Graph} {start stop condition id : ItemId} {case : SwitchCase} {marks : List ItemId} {puts : List Put}
  {c : Condition} {subject value : String}

/-- What is found at a position was found there before, if it is not one of the lines. -/
theorem Overlays.findPos?_of (h : g.Overlays marks puts g') (hg : g.Ordered) {pos : UInt16}
    (hfind : g'.findPos? pos = some id) (hid : id < g.size) : g.findPos? pos = some id := by
  obtain ⟨-, hpos⟩ := h.ordered.of_findPos? hfind
  rw [h.pos_eq hid] at hpos
  obtain ⟨found, hfound⟩ := Option.isSome_iff_exists.1 (hg.isSome_findPos? hid hpos)
  obtain ⟨hmem, hposFound⟩ := hg.of_findPos? hfound
  rcases hg.eq_or_precedes_of_findPos? hfound hid (UInt16.le_of_eq hpos.symm) with rfl | hbefore
  · exact hfound
  · have hlt := h.ordered.pos_lt_findPos? hfind (hbefore.mono h.order)
    rw [h.pos_eq (hg.lt_of_mem hmem), hposFound] at hlt
    exact (UInt16.lt_irrefl _ hlt).elim

/-- Where the next case starts is the same while lines are put. -/
theorem Overlays.next (h : g.Overlays marks puts g') (hg : g.Ordered) (hcase : case.Stands start stop g)
    (hfind : g'.findPos? case.next = some id) (hopen : (g'.item id).isOpenExpression = true) :
    g'.Within start stop id := by
  have hopen' := h.isOpenExpression_of hopen
  have hfind' := h.findPos?_of hg hfind (bare_of_isOpenExpression hopen').1
  exact (hcase.next id hfind' hopen').mono h.order

theorem stands_switchCase? (hg : g.Ready start stop) (hwithin : g.Within start stop condition)
    (h : g.switchCase? condition stop = some case) :
    (∃ e, (⟨condition, e, case.branch⟩ : Condition).Fits start stop g) ∧ case.Stands start stop g := by
  simp only [switchCase?, Option.bind_eq_bind, Option.bind_eq_some_iff, Option.guard_eq_some',
    exists_const] at h
  obtain ⟨branch, hfound, next, hnext, exit, hexit, join, hjoin, -, hcase⟩ := h
  cases hcase
  refine ⟨fits_of_forwardBranch? hg.ordered hwithin hfound, fun id hid => ?_, fun id hid hopen => ?_⟩
  · rcases List.mem_cons.1 hid with rfl | hid
    · exact (isOpenJump_of_openTarget? (Or.inl rfl) hjoin).1
    · exact isOpenJump_of_onlyJumpTo (Option.mem_toList.1 hid)
  · obtain rfl : next = id := Option.some.inj (hnext.symm.trans hid)
    have hlt := hg.ordered.lt_of_findPos? hnext
    refine hg.settled exit next (hg.ordered.adjoins_prev? hlt hexit) ?_ hopen
    unfold openTarget? at hjoin
    dsimp only at hjoin
    split at hjoin
    · assumption
    · cases hjoin

/-- A case may be written over what has been written before. -/
theorem Overlays.writeCase (h : g.Overlays marks puts g') (hc : c.Fits start stop g) (hbranch : c.branch = case.branch)
    (hvalue : splitComparison? c.expression.text = some (subject, value))
    (hexits : ∀ id ∈ case.exits, (g.item id).isOpenJump = true) :
    g.Overlays (marks ++ ([c.item, c.branch] ++ case.exits ++ [case.lastLine]))
      (puts ++ Deed.caseLines value c.item case.lastLine) (g'.writeCase c.item case) := by
  have htext : g'.conditionText c.item = c.expression.text :=
    conditionText_eq ((h.expression?_eq hc.bare.1).trans hc.expression)
  have hlast := bare_of_isOpenJump (hexits _ case.lastLine_mem_exits)
  have hjumps : ∀ id ∈ [case.branch, case.exit] ++ case.extraExit.toList, g.Bare id :=
    List.forall_mem_cons.2 ⟨hbranch ▸ hc.bareBranch, fun id hid => bare_of_isOpenJump (hexits id hid)⟩
  have hwritten := ((h.replace hc.bare.1 hc.bare.2 ⟨"case " ++ value ++ ":", .opens .case⟩).markAll hjumps).replace
    hlast.1 hlast.2 ⟨"break;", .closes .case⟩
  unfold Graph.writeCase
  rw [htext, hvalue, hbranch]
  simp only [List.append_assoc] at hwritten
  exact hwritten

end Graph

namespace Recovery

variable {start stop condition : ItemId} {w : Recovery} {case : SwitchCase} {c : Condition}
  {subject value : String}

theorem does_case (hg : w.graph.Ready start stop) (hc : c.Fits start stop w.graph) (hbranch : c.branch = case.branch)
    (hvalue : splitComparison? c.expression.text = some (subject, value)) (hcase : case.Stands start stop w.graph) :
    w.Does start stop (.case value c case.exits case.lastLine)
      { w with graph := w.graph.writeCase c.item case } :=
  ⟨.case hc hvalue hcase.exits case.lastLine_mem_exits,
    (Graph.Overlays.refl hg.ordered).writeCase hc hbranch hvalue hcase.exits, rfl, rfl, rfl⟩

end Recovery

namespace Graph

variable {g : Graph} {start stop first id : ItemId} {case following : SwitchCase} {subject : String}

theorem stands_followingCase? (hg : g.Ready start stop)
    (hnext : ∀ id, g.findPos? case.next = some id → (g.item id).isOpenExpression = true → g.Within start stop id)
    (h : g.followingCase? case subject stop = some (id, following)) :
    (∃ e value, (⟨id, e, following.branch⟩ : Condition).Fits start stop g ∧
      splitComparison? e.text = some (subject, value)) ∧ following.Stands start stop g := by
  simp only [followingCase?, caseCondition?, Option.bind_eq_bind, Option.bind_eq_some_iff, Option.guard_eq_some',
    exists_const, Prod.exists] at h
  obtain ⟨found, ⟨site, hsite, hopen, left, right, hsplit, hleft, hpure⟩, -, next, hcase, -, hpair⟩ := h
  cases hpure
  cases hpair
  obtain ⟨⟨e, hfits⟩, hstands⟩ := stands_switchCase? hg (hnext id hsite hopen) hcase
  rw [hfits.text, hleft] at hsplit
  exact ⟨⟨e, right, hfits, hsplit⟩, hstands⟩

end Graph

namespace Recovery

variable {start stop condition : ItemId} {w : Recovery} {case : SwitchCase} {c : Condition}
  {subject value : String}

/-- Behind a first case those that follow it are written. -/
theorem leads_writeCases (subject : String) (fuel : Nat) {g : Graph}
    (hfirst : w.Leads start stop { w with graph := g.writeCase condition case })
    (hready : (g.writeCase condition case).Ready start stop)
    (hnext : ∀ id, (g.writeCase condition case).findPos? case.next = some id →
      ((g.writeCase condition case).item id).isOpenExpression = true →
      (g.writeCase condition case).Within start stop id) :
    w.Leads start stop { w with graph := (Graph.writeCases subject stop (fuel + 1) g condition case).1 } := by
  induction fuel generalizing g condition case with
  | zero =>
    rw [Graph.writeCases]
    split <;> exact hfirst
  | succ fuel ih =>
    rw [Graph.writeCases]
    split
    · rename_i id following hfollowing
      obtain ⟨⟨e, value, hfits, hsplit⟩, hstands⟩ := Graph.stands_followingCase? hready hnext hfollowing
      generalize g.writeCase condition case = written at *
      have hdoes : Recovery.Does start stop { w with graph := written }
          (.case value ⟨id, e, following.branch⟩ following.exits following.lastLine)
          { w with graph := written.writeCase id following } :=
        does_case hready hfits rfl hsplit hstands
      have hoverlays := hdoes.overlays
      exact ih (g := written) (hfirst.trans (leads_of_does _ hdoes)) (hoverlays.ready hready)
        fun id => hoverlays.next hready.ordered hstands
    · exact hfirst

theorem leads_endSwitch (hg : w.graph.Ready start stop) (next : UInt16) :
    w.Leads start stop { w with graph := match (w.graph.findPos? next).bind w.graph.prev? with
      | some site => w.graph.addStatement site ⟨closingLine "end-switch", .closes .switch⟩
      | none => w.graph } := by
  split
  · rename_i site hsite
    obtain ⟨found, hfound, hprev⟩ := Option.bind_eq_some_iff.1 hsite
    have hlt := hg.ordered.lt_of_mem
      (hg.ordered.precedes_prev? (hg.ordered.lt_of_findPos? hfound) hprev).left_mem
    exact leads_of_does (.endSwitch site)
      ⟨.endSwitch site, (Graph.Overlays.refl hg.ordered).add hlt _, rfl, rfl, rfl⟩
  · exact Relation.ReflTransGen.refl

theorem Leads.ready {w' : Recovery} (h : w.Leads start stop w') (hg : w.graph.Ready start stop) :
    w'.graph.Ready start stop := by
  induction h with
  | refl => exact hg
  | tail _ hstep ih =>
    obtain ⟨deed, hdoes⟩ := hstep
    exact hdoes.overlays.ready ih

theorem leads_structureSwitch (hg : w.graph.Ready start stop) (hwithin : w.graph.Within start stop condition) :
    w.Leads start stop { w with graph := Graph.structureSwitch stop w.graph condition } := by
  unfold Graph.structureSwitch
  split
  · exact Relation.ReflTransGen.refl
  · rename_i subject case hswitch
    split at hswitch
    · simp only [Graph.switchAt?, Option.bind_eq_bind, Option.bind_eq_some_iff, Prod.exists] at hswitch
      obtain ⟨left, value, hsplit, found, hfound, -, -, hpair⟩ := hswitch
      cases hpair
      obtain ⟨⟨e, hfits⟩, hstands⟩ := Graph.stands_switchCase? hg hwithin hfound
      rw [hfits.text] at hsplit
      obtain ⟨fuel, hfuel⟩ : ∃ fuel, w.graph.size = fuel + 1 :=
        Nat.exists_eq_succ_of_ne_zero (Nat.ne_of_gt (Nat.zero_lt_of_lt hfits.bare.1))
      -- The first line of the switch and that of its first case are written for one condition.
      have hhead := ((Graph.Overlays.refl hg.ordered).replace hfits.bare.1 hfits.bare.2
        ⟨openingLine "switch" subject, .opens .switch⟩).writeCase hfits rfl hsplit hstands.exits
      dsimp only at hhead ⊢
      generalize w.graph.replaceByStatement condition _ = opened at hhead ⊢
      have hfirst : w.Does start stop
          (.switch subject value ⟨condition, e, case.branch⟩ case.exits case.lastLine)
          { w with graph := opened.writeCase condition case } :=
        ⟨.switch hfits hsplit hstands.exits case.lastLine_mem_exits, hhead, rfl, rfl, rfl⟩
      have hcases := leads_writeCases subject fuel (leads_of_does _ hfirst) (hhead.ready hg)
        fun id => hhead.next hg.ordered hstands
      rw [← hfuel] at hcases
      exact hcases.trans (leads_endSwitch (hcases.ready hg) _)
    · cases hswitch

end Recovery

/-! ## Passes over the conditions of a function -/

namespace Recovery

variable {start stop : ItemId} {w : Recovery} {ids : List ItemId}

theorem Leads.retains {w' : Recovery} (h : w.Leads start stop w') (hg : w.graph.Ordered) :
    w.graph.Retains w'.graph := by
  induction h with
  | refl => exact .refl hg
  | tail _ hstep ih =>
    obtain ⟨deed, hdoes⟩ := hstep
    exact ih.trans hdoes.overlays.retains

theorem leads_foldl {f : Recovery → ItemId → Recovery} (hg : w.graph.Ready start stop)
    (hids : ∀ id ∈ ids, w.graph.Within start stop id)
    (hf : ∀ (w : Recovery) id, w.graph.Ready start stop → w.graph.Within start stop id → w.Leads start stop (f w id)) :
    w.Leads start stop (ids.foldl f w) := by
  induction ids generalizing w with
  | nil => exact Relation.ReflTransGen.refl
  | cons id rest ih =>
    have hfirst := hf w id hg (hids id List.mem_cons_self)
    exact hfirst.trans (ih (hfirst.ready hg) fun other hother =>
      (hids other (List.mem_cons_of_mem _ hother)).mono (hfirst.retains hg.ordered).longer.order)

theorem leads_foldl_graph {f : Graph → ItemId → Graph} (hg : w.graph.Ready start stop)
    (hids : ∀ id ∈ ids, w.graph.Within start stop id)
    (hf : ∀ (w : Recovery) id, w.graph.Ready start stop → w.graph.Within start stop id →
      w.Leads start stop { w with graph := f w.graph id }) :
    w.Leads start stop { w with graph := ids.foldl f w.graph } := by
  have hfold : ids.foldl (fun (w : Recovery) id => { w with graph := f w.graph id }) w =
      { w with graph := ids.foldl f w.graph } := by
    clear hids hg
    induction ids generalizing w with
    | nil => rfl
    | cons id rest ih => exact ih
  exact hfold ▸ leads_foldl hg hids hf

theorem leads_foldl_work {f : LoopWork → ItemId → LoopWork} (hg : w.graph.Ready start stop)
    (hids : ∀ id ∈ ids, w.graph.Within start stop id)
    (hf : ∀ (w : Recovery) id, w.graph.Ready start stop → w.graph.Within start stop id →
      w.Leads start stop { w with toLoopWork := f w.toLoopWork id }) :
    w.Leads start stop { w with toLoopWork := ids.foldl f w.toLoopWork } := by
  have hfold : ids.foldl (fun (w : Recovery) id => { w with toLoopWork := f w.toLoopWork id }) w =
      { w with toLoopWork := ids.foldl f w.toLoopWork } := by
    clear hids hg
    induction ids generalizing w with
    | nil => rfl
    | cons id rest ih => exact ih
  exact hfold ▸ leads_foldl hg hids hf

end Recovery

end Parley
