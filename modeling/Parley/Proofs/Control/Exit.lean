import Parley.Proofs.Control.Destination
import Parley.Proofs.Control.Recovery
import Parley.Proofs.Source.Decompile
set_option autoImplicit false

/-!
# Where loops with their condition behind are left

A loop with its condition behind is recognised by the jump back to its body.  Where the branch leads that leaves the
loop is not looked at, and neither is where a second jump behind the loop leads that is consumed with it.  So the text
goes on behind the loop where the code does only if they lead there.
-/

namespace Parley

open Fallible Source

namespace Graph

variable {g : Graph} {a b : ItemId}

/-- What stands directly behind an instruction with an operand stands two words further. -/
theorem pos_behind_operand {code : CodeWords} (h : Adjoins (ofCode code).order a b) {opcode : Opcode}
    (hopcode : ((ofCode code).item a).opcode? = some opcode) (htakes : opcode.takesOperand = true) :
    ((ofCode code).item b).pos = ((ofCode code).item a).pos + 2 := by
  obtain ⟨start, hstart⟩ := exists_start_of_lt ((ofCode_ordered code).lt_of_mem h.precedes.left_mem)
  obtain ⟨operand, hoperand⟩ := operand_ofCode h.precedes hopcode htakes
  rw [item_ofCode hstart] at hoperand
  have hdecoded : (decodeItem code (UInt16.ofNat start)).2 = some operand := hoperand
  rw [pos_behind h hstart, strideAt, hdecoded]
  rfl

/-- So it does in the listings that code is made into. -/
theorem Extends.pos_behind_operand {code : CodeWords} (h : (ofCode code).Extends g) (hg : g.Ordered)
    (hadjoins : Adjoins g.order a b) {opcode : Opcode} (hopcode : (g.item a).opcode? = some opcode)
    (htakes : opcode.takesOperand = true) (hb : (g.item b).isOpcodeItem = true) :
    (g.item b).pos = (g.item a).pos + 2 := by
  have ha := h.lt_of_isOpcodeItem (Item.isOpcodeItem_of_opcode? hopcode)
  have hb := h.lt_of_isOpcodeItem hb
  have hpos {id : ItemId} (hid : id < (ofCode code).size) : (g.item id).pos = ((ofCode code).item id).pos :=
    congrArg Prod.fst (h.code id hid)
  rw [Item.opcode?_of_code (h.code a ha)] at hopcode
  rw [hpos ha, hpos hb, Graph.pos_behind_operand (h.adjoins (ofCode_ordered code) hg ha hb hadjoins) hopcode htakes]

end Graph

namespace LoopWork.DoWhile

variable {g g' : Graph} {loop : DoWhile} {extra : Option ItemId}

/-- What the pass consumes that writes a loop: the branch, the jump back directly behind it, and perhaps a second jump
directly behind that. -/
structure Consumes (loop : DoWhile) (g : Graph) (extra : Option ItemId) (g' : Graph) : Prop where
  branch : (g.item loop.branch.item).isOpenOpcode .beq = true
  posBranch : (g.item loop.branch.item).pos = loop.branch.pos
  leaves : (g.item loop.branch.item).targetPos? = some loop.branch.target
  forward : loop.branch.pos < loop.branch.target
  jump : (g.item loop.jump).isOpenOpcode .jmp = true
  posJump : (g.item loop.jump).pos = loop.branch.pos + 2
  returns : (g.item loop.jump).targetPos? = some loop.body
  backward : loop.body ≤ loop.branch.pos
  second : ∀ id, extra = some id → (g.item id).isOpenOpcode .jmp = true ∧ (g.item id).pos = loop.branch.pos + 4
  consumed : ∀ id, (g.item id).isOpcodeItem = true → ((g'.item id).processed = true ↔
    (g.item id).processed = true ∨ id = loop.branch.item ∨ id = loop.jump ∨ extra = some id)

/-- The position behind the last jump that is consumed with a loop. -/
def behind (loop : DoWhile) (g : Graph) (extra : Option ItemId) : UInt16 := (g.item (extra.getD loop.jump)).pos + 2

/-- The branch that leaves a loop leads behind all jumps that are consumed with it, or to the second of them, which
does. -/
def FallsThrough (loop : DoWhile) (g : Graph) (extra : Option ItemId) : Prop :=
  loop.branch.target = loop.behind g extra ∨
    ∃ id, extra = some id ∧ loop.branch.target = (g.item id).pos ∧ (g.item id).targetPos? = some (loop.behind g extra)

/-- Without a second jump the branch has to lead behind the first one.  With a second jump it has to lead behind that,
or to it, and then the jump has to be one to the next instruction. -/
def Agrees (loop : DoWhile) (g : Graph) : Option ItemId → Prop
  | none => loop.branch.target = loop.branch.pos + 4
  | some id => loop.branch.target = loop.branch.pos + 6 ∨
      loop.branch.target = loop.branch.pos + 4 ∧ (g.item id).targetPos? = some (loop.branch.pos + 6)

theorem Consumes.fallsThrough_iff (h : loop.Consumes g extra g') : loop.FallsThrough g extra ↔ loop.Agrees g extra := by
  unfold FallsThrough behind
  cases extra with
  | none =>
    rw [Option.getD_none, h.posJump, UInt16.add_assoc]
    exact or_iff_left fun ⟨_, hnone, _⟩ => nomatch hnone
  | some id =>
    rw [Option.getD_some, (h.second id rfl).2, UInt16.add_assoc]
    refine or_congr_right ⟨fun ⟨other, hsame, hleads⟩ => ?_, fun hleads => ⟨id, rfl, ?_⟩⟩
    · cases hsame
      rwa [(h.second id rfl).2] at hleads
    · rwa [(h.second id rfl).2]

end LoopWork.DoWhile

namespace LoopWork

variable {stop condition : ItemId} {code : CodeWords} {work : LoopWork} {loop : DoWhile}

/-- What is consumed with a loop in a listing that code was made into. -/
theorem exists_consumes (hlonger : (Graph.ofCode code).Extends work.graph) (hg : work.graph.Ordered)
    (hloop : doWhile? work.graph condition stop = some loop) :
    ∃ extra, loop.Consumes work.graph extra (structureDoWhile stop work condition).graph := by
  obtain ⟨hforward, hnext, hback, hle, -⟩ := of_doWhile? hloop
  obtain ⟨hcondition, -, hbranch, hposBranch, hleaves, hlt⟩ := Graph.of_forwardBranch? hforward
  obtain ⟨hjump, hreturns⟩ := Graph.of_openTarget? hback
  rw [Item.isOpenExpression, Bool.and_eq_true] at hcondition
  obtain ⟨e, he⟩ := Option.isSome_iff_exists.1 hcondition.2
  obtain ⟨extra, hextra, hoverlays, -⟩ := overlays_structureDoWhile hg he hloop
  have hopcode {id : ItemId} {opcode : Opcode} (h : (work.graph.item id).isOpenOpcode opcode = true) :=
    Item.isOpcodeItem_of_opcode? (Item.opcode?_of_isOpenOpcode h)
  have hposJump : (work.graph.item loop.jump).pos = loop.branch.pos + 2 := by
    have hadjoins := hg.adjoins_next? (Graph.lt_size_of_isOpcodeItem (hopcode hbranch)) hnext
    rw [← hposBranch, hlonger.pos_behind_operand hg hadjoins (Item.opcode?_of_isOpenOpcode hbranch) rfl (hopcode hjump)]
  refine ⟨extra, hbranch, hposBranch, hleaves, hlt, hjump, hposJump, hreturns, hle,
    fun id hid => ⟨(hextra id hid).1, ?_⟩, fun id hid => ?_⟩
  · rw [hlonger.pos_behind_operand hg (hextra id hid).2 (Item.opcode?_of_isOpenOpcode hjump) rfl
      (hopcode (hextra id hid).1), hposJump, UInt16.add_assoc]
    rfl
  · have hne : id ≠ condition := by
      rintro rfl
      rw [Item.isOpcodeItem, (Item.of_expression? (by rw [he]; rfl)).1] at hid
      cases hid
    rw [hoverlays.processed_iff (Graph.lt_size_of_isOpcodeItem hid)]
    simp [Deed.marks, hne]

end LoopWork

/-- What the pass over the loops of a function with their condition behind has made of a decompilation when it has tried
the conditions `tried`. -/
def Decompilation.triedLoops (d : Decompilation) (func : Nat) (tried : List ItemId) : LoopWork :=
  tried.foldl (LoopWork.structureDoWhile (d.bounds func).2) ⟨d.graph, d.loopRanges⟩

theorem Decompilation.triedLoops_concat (d : Decompilation) (func : Nat) (tried : List ItemId) (condition : ItemId) :
    d.triedLoops func (tried ++ [condition]) =
      LoopWork.structureDoWhile (d.bounds func).2 (d.triedLoops func tried) condition := by
  rw [triedLoops, List.foldl_append]
  rfl

/-- The pass tries the expressions of the function in their order. -/
theorem Decompilation.runPhases_doWhileLoops (d : Decompilation) (func : Nat) :
    runPhases [.doWhileLoops func] d =
      { d with
        graph := (d.triedLoops func (d.graph.openExpressions (d.body func))).graph
        loopRanges := (d.triedLoops func (d.graph.openExpressions (d.body func))).ranges } := rfl

/-- What is consumed with a loop, and when the text goes on where the code does.  A loop with its condition behind
consists of the branch that leaves it, the jump back to its body directly behind the branch, and perhaps a second jump
directly behind that, and no other instruction is consumed.  Leaving the loop leads behind them if the branch leads
behind the last of them, or to a second jump to the next instruction. -/
theorem doWhile_fallsThrough {image : Image} {strings : List String} {options : NamingOptions} {phases : List Phase}
    {d : Decompilation} (hd : d = runPhases phases (.ofImage image strings options)) {func : Nat} {tried : List ItemId}
    {condition : ItemId} {loop : LoopWork.DoWhile}
    (hloop : LoopWork.doWhile? (d.triedLoops func tried).graph condition (d.bounds func).2 = some loop) :
    ∃ extra, loop.Consumes (d.triedLoops func tried).graph extra (d.triedLoops func (tried ++ [condition])).graph ∧
      (loop.FallsThrough (d.triedLoops func tried).graph extra ↔
        loop.Agrees (d.triedLoops func tried).graph extra) := by
  have honward := (Decompilation.well_ofImage image strings options).runPhases phases
  rw [← hd] at honward
  have htried : d.graph.Writes (d.triedLoops func tried).graph :=
    LoopWork.writes_foldl ⟨d.graph, d.loopRanges⟩ honward.well.sound fun work condition hg =>
      LoopWork.writes_structureDoWhile work hg _ condition
  obtain ⟨lines, blocks, -, -, hgrows⟩ := htried
  obtain ⟨extra, hconsumes⟩ := LoopWork.exists_consumes (honward.longer.trans hgrows.extends) hgrows.sound.ordered hloop
  refine ⟨extra, ?_, hconsumes.fallsThrough_iff⟩
  rwa [Decompilation.triedLoops_concat]

/-- A loop with its condition behind that stores to a local variable when it has been left; the branch that leaves it
leads over so many words. -/
def exitingLoop (skipped : UInt16) : Image := .ofCode (encode (prologueCode 1 ++
  ([⟨.pushi, some 1⟩, ⟨.beq, some skipped⟩, ⟨.jmp, some 5⟩, ⟨.pushiEff, some 1⟩, ⟨.pushi, some 7⟩, ⟨.sto, none⟩] ++
    epilogueCode))).toArray

/-- The phases of the decompilation of a single function before its loops with their condition behind are written. -/
def phasesBeforeDoWhiles : List Phase :=
  [.references, .discovery, .relabeling, .analysis 0, .combination 0, .switches 0, .whileLoops 0]

/-- The loop is left to the store behind it, if the branch leads there. -/
theorem doWhile_fallsThrough_exitingLoop :
    ∃ d loop extra, d = runPhases phasesBeforeDoWhiles (.ofImage (exitingLoop 3) [] ⟨false, .empty⟩) ∧
      LoopWork.doWhile? (d.triedLoops 0 []).graph 15 (d.bounds 0).2 = some loop ∧
      loop.Consumes (d.triedLoops 0 []).graph extra (d.triedLoops 0 [15]).graph ∧
      loop.FallsThrough (d.triedLoops 0 []).graph extra := by
  obtain ⟨d, hd⟩ : ∃ d, d = runPhases phasesBeforeDoWhiles (.ofImage (exitingLoop 3) [] ⟨false, .empty⟩) := ⟨_, rfl⟩
  have hasked : ((LoopWork.doWhile? (d.triedLoops 0 []).graph 15 (d.bounds 0).2).map fun loop =>
        (loop.branch.pos, loop.branch.target)) = some (7, 11) ∧
      ∀ id ∈ List.range (d.triedLoops 0 []).graph.size,
        ((d.triedLoops 0 []).graph.item id).isOpenOpcode .jmp = true →
          ((d.triedLoops 0 []).graph.item id).pos ≠ 11 := by
    rw [hd]
    decide +kernel
  obtain ⟨hparts, hnone⟩ := hasked
  obtain ⟨loop, hloop, hparts⟩ := Option.map_eq_some_iff.1 hparts
  obtain ⟨hpos, htarget⟩ := Prod.mk.inj hparts
  obtain ⟨extra, hconsumes, hfalls⟩ := doWhile_fallsThrough hd hloop
  refine ⟨d, loop, extra, hd, hloop, hconsumes, hfalls.2 ?_⟩
  cases extra with
  | none => rw [LoopWork.DoWhile.Agrees, hpos, htarget]; rfl
  | some id =>
    obtain ⟨hopen, hsecond⟩ := hconsumes.second id rfl
    rw [hpos] at hsecond
    exact absurd hsecond (hnone id (List.mem_range.2 (Graph.bare_of_isOpenOpcode hopen).1) hopen)

/-- The loop is written as well where the branch leads over the store, so its text goes on with the store and its code
does not. -/
theorem not_fallsThrough_exitingLoop :
    (∃ d, Pass.decompile (.ofImage (exitingLoop 8) [] ⟨false, .empty⟩) = .ok () d ∧ d.JumpsInside ∧
      d.graph.liveStatements.map (·.text) = ["void start() // referenced 1 times", openBrace, "int local_1;",
        "do " ++ openBrace, closeBrace ++ " while (1);", "local_1 = 7;", closeBrace ++ " // end-function", ""]) ∧
    ∃ d loop, d = runPhases phasesBeforeDoWhiles (.ofImage (exitingLoop 8) [] ⟨false, .empty⟩) ∧
      LoopWork.doWhile? (d.triedLoops 0 []).graph 15 (d.bounds 0).2 = some loop ∧
      (loop.branch.pos, loop.branch.target) = (7, 16) ∧
      ∀ extra, loop.Consumes (d.triedLoops 0 []).graph extra (d.triedLoops 0 [15]).graph →
        ¬ loop.FallsThrough (d.triedLoops 0 []).graph extra := by
  refine ⟨?_, ?_⟩
  · obtain ⟨d, hrun, hasked⟩ := decompilesTo_iff.1 (show decompilesTo (exitingLoop 8) (fun d => d.JumpsInside ∧
      d.graph.liveStatements.map (·.text) = ["void start() // referenced 1 times", openBrace, "int local_1;",
        "do " ++ openBrace, closeBrace ++ " while (1);", "local_1 = 7;", closeBrace ++ " // end-function", ""]) =
          true by decide +kernel)
    exact ⟨d, hrun, of_decide_eq_true hasked⟩
  obtain ⟨d, hd⟩ : ∃ d, d = runPhases phasesBeforeDoWhiles (.ofImage (exitingLoop 8) [] ⟨false, .empty⟩) := ⟨_, rfl⟩
  have hparts : ((LoopWork.doWhile? (d.triedLoops 0 []).graph 15 (d.bounds 0).2).map fun loop =>
      (loop.branch.pos, loop.branch.target)) = some (7, 16) := by
    rw [hd]
    decide +kernel
  obtain ⟨loop, hloop, hparts⟩ := Option.map_eq_some_iff.1 hparts
  obtain ⟨hpos, htarget⟩ := Prod.mk.inj hparts
  refine ⟨d, loop, hd, hloop, hparts, fun extra hconsumes => ?_⟩
  rw [hconsumes.fallsThrough_iff]
  cases extra <;> simp [LoopWork.DoWhile.Agrees, hpos, htarget]

end Parley
