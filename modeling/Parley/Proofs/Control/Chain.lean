import Parley.Proofs.Control.Recovery
import Parley.Proofs.Decompile.Phase
set_option autoImplicit false

/-!
# Chains of cases

A switch is written as a chain of cases.  Each stands where the branch of the one before it leads, and all lines of a
case are put before that place.  So the lines never hide what the next test of the chain looks at, and what is said of a
chain can be said of the listing in which nothing of it has been written.
-/

namespace Parley

namespace Graph

variable {g g' : Graph} {marks : List ItemId} {puts : List Put} {a b id : ItemId}

/-! ## Places apart from the lines -/

/-- Where no line is put the same item is found. -/
theorem Overlays.findPos?_eq (h : g.Overlays marks puts g') (hg : g.Ordered) {pos : UInt16}
    (hfind : g.findPos? pos = some id) (hputs : ∀ put ∈ puts, (g.item put.site).pos ≠ pos) :
    g'.findPos? pos = some id := by
  have hsome : (g'.findPos? pos).isSome = true :=
    h.extends.isSome_findPos? hg h.ordered (by rw [hfind]; rfl)
  obtain ⟨found, hfound⟩ := Option.isSome_iff_exists.1 hsome
  have hpos := (h.ordered.of_findPos? hfound).2
  have hold : found < g.size := by
    by_contra hge
    obtain ⟨i, put, hput, rfl⟩ := h.exists_put (Nat.le_of_not_lt hge) (h.ordered.lt_of_findPos? hfound)
    rw [(h.put i put hput).item] at hpos
    exact hputs put (List.mem_of_getElem? hput) hpos
  rw [hfound, ← hfind, h.findPos?_of hg hfound hold]

/-- Neighbours stay neighbours where no line is put between them. -/
theorem Overlays.adjoins (h : g.Overlays marks puts g') (hg : g.Ordered) (hadjoins : Adjoins g.order a b)
    (hputs : ∀ put ∈ puts, put.site ≠ b) : Adjoins g'.order a b := by
  have hab := hadjoins.precedes.mono h.order
  obtain ⟨x, hx⟩ := Option.isSome_iff_exists.1 (h.ordered.isSome_prev? hab)
  have hxb := h.ordered.adjoins_prev? (h.ordered.lt_of_mem hab.right_mem) hx
  rcases hxb.eq_or_precedes_left h.ordered.nodup hab with rfl | hax
  · exact hxb
  · exfalso
    have hmem := hxb.precedes.left_mem
    rcases Nat.lt_or_ge x g.size with hold | hnew
    · -- What was there before does not come between neighbours.
      have hbetween :=
        hxb.precedes.of_sublist h.ordered.nodup h.order ((hg.mem_order x).2 hold) hadjoins.precedes.right_mem
      rcases hadjoins.eq_or_precedes_left hg.nodup hbetween with rfl | hxa
      · exact hax.irrefl h.ordered.nodup
      · exact hax.asymm h.ordered.nodup (hxa.mono h.order)
    · obtain ⟨i, put, hput, rfl⟩ := h.exists_put hnew (h.ordered.lt_of_mem hmem)
      obtain ⟨hsite, -, hbefore, hbehind⟩ := h.put i put hput
      have hne := hputs put (List.mem_of_getElem? hput)
      -- A line between them would have been put before the second.
      rcases precedes_total ((hg.mem_order _).2 hsite) hadjoins.precedes.right_mem hne with hsiteb | hbsite
      · rcases hadjoins.eq_or_precedes_left hg.nodup hsiteb with hsame | hsitea
        · exact hax.asymm h.ordered.nodup (hsame ▸ hbefore)
        · exact (hbefore.trans h.ordered.nodup (hsitea.mono h.order)).asymm h.ordered.nodup hax
      · exact (hbehind b hbsite).asymm h.ordered.nodup hxb.precedes

/-- Where an open jump or branch leads it has led before. -/
theorem Overlays.openTarget?_of (h : g.Overlays marks puts g') {opcode : Opcode} {target : UInt16}
    (hopen : g'.openTarget? id opcode = some target) : g.openTarget? id opcode = some target := by
  obtain ⟨hopcode, htarget⟩ := of_openTarget? hopen
  have hold := h.isOpenOpcode_of hopcode
  rw [openTarget?, if_pos hold, ← Item.targetPos?_of_opcodeItem? (h.opcodeItem?_eq (bare_of_isOpenOpcode hold).1),
    htarget]

theorem lt_size_of_openTarget? {opcode : Opcode} {target : UInt16} (h : g.openTarget? id opcode = some target) :
    id < g.size := (bare_of_isOpenOpcode (of_openTarget? h).1).1

/-- The branch behind a condition leads forward. -/
theorem openTarget?_of_forwardBranch? {condition stop : ItemId} {branch : Branch} (hg : g.Ordered)
    (h : g.forwardBranch? condition stop = some branch) :
    g.openTarget? branch.item .beq = some branch.target ∧ (g.item branch.item).pos < branch.target ∧
      Precedes g.order condition branch.item := by
  obtain ⟨hopen, hnext, hbeq, hpos, htarget, hforward⟩ := of_forwardBranch? h
  refine ⟨?_, hpos ▸ hforward, ?_⟩
  · rw [openTarget?, if_pos hbeq, htarget]
  · exact (hg.mem_after (bare_of_isOpenExpression hopen).1).1
      ((List.takeWhile_sublist _).mem (List.mem_of_find?_eq_some hnext))

theorem Ordered.length_after_lt_size (hg : g.Ordered) (ha : a < g.size) : (g.after a).length < g.size := by
  obtain ⟨front, behind, horder, hfront, -⟩ := hg.split ha
  rw [after_split horder hfront, ← hg.length_order, horder, List.length_append, List.length_cons]
  omega

end Graph

/-! ## Cases as they are written -/

/-- A case of a switch with its condition. -/
structure WrittenCase where
  condition : ItemId
  expression : Expr
  value : String
  case : SwitchCase

namespace WrittenCase

/-- The items that are marked. -/
def marks (k : WrittenCase) : List ItemId := [k.condition, k.case.branch] ++ k.case.exits ++ [k.case.lastLine]

/-- The lines that are put. -/
def puts (k : WrittenCase) : List Put := Deed.caseLines k.value k.condition k.case.lastLine

/-- In a listing a case tests a text for equality, the branch behind the test leads to the next case, and the jumps at
the end of the case, of which one stands directly before the next case, lead to `join`. -/
structure Stands (g : Graph) (subject : String) (join : UInt16) (k : WrittenCase) : Prop where
  opened : (g.item k.condition).isOpenExpression = true
  expression : (g.item k.condition).expression? = some k.expression
  compares : splitComparison? k.expression.text = some (subject, k.value)
  branch : g.openTarget? k.case.branch .beq = some k.case.next
  tests : Precedes g.order k.condition k.case.branch
  exits : ∀ id ∈ k.case.exits, g.openTarget? id .jmp = some join
  ends : ∃ behind, g.findPos? k.case.next = some behind ∧ Adjoins g.order k.case.exit behind
  below : ∀ id ∈ k.marks, (g.item id).pos < k.case.next
  join : k.case.join = join

variable {g g' : Graph} {marks : List ItemId} {puts : List Put} {subject value : String} {join : UInt16}
  {condition stop id : ItemId} {case : SwitchCase} {e : Expr} {k : WrittenCase}

theorem site_mem_marks : ∀ put ∈ k.puts, put.site ∈ k.marks := by
  intro put hput
  simp only [WrittenCase.puts, Deed.caseLines, List.mem_cons, List.not_mem_nil, or_false] at hput
  rcases hput with rfl | rfl <;> simp [WrittenCase.marks]

theorem Stands.below_puts (hk : k.Stands g subject join) : ∀ put ∈ k.puts, (g.item put.site).pos < k.case.next :=
  fun put hput => hk.below put.site (site_mem_marks put hput)

/-- The condition stands before what the branch behind it leads to. -/
theorem Stands.pos_lt (hk : k.Stands g subject join) (hg : g.Ordered) (hfind : g.findPos? k.case.next = some id) :
    (g.item k.condition).pos < (g.item id).pos := by
  have hbelow := hk.below k.condition (by simp [WrittenCase.marks])
  rwa [← (hg.of_findPos? hfind).2] at hbelow

theorem Stands.bare (hk : k.Stands g subject join) : ∀ id ∈ k.marks, g.Bare id := by
  have hexit {id : ItemId} (hid : id ∈ k.case.exits) : g.Bare id :=
    Graph.bare_of_isOpenOpcode (Graph.of_openTarget? (hk.exits id hid)).1
  intro id hid
  simp only [WrittenCase.marks, List.cons_append, List.nil_append, List.mem_cons, List.mem_append, List.not_mem_nil,
    or_false] at hid
  rcases hid with rfl | rfl | hid | rfl
  · exact Graph.bare_of_isOpenExpression hk.opened
  · exact Graph.bare_of_isOpenOpcode (Graph.of_openTarget? hk.branch).1
  · exact hexit hid
  · exact hexit k.case.lastLine_mem_exits

/-- The item that is found where a branch leads is none of the lines in front of the branch. -/
theorem findPos?_behind (h : g.Overlays marks puts g') (hg : g.Ordered) {pos : UInt16}
    (hputs : ∀ put ∈ puts, (g.item put.site).pos < pos) (hfind : g'.findPos? pos = some id) :
    g.findPos? pos = some id := by
  refine h.findPos?_of hg hfind ?_
  have hpos := (h.ordered.of_findPos? hfind).2
  by_contra hge
  obtain ⟨i, put, hput, rfl⟩ := h.exists_put (Nat.le_of_not_lt hge) (h.ordered.lt_of_findPos? hfind)
  rw [(h.put i put hput).item] at hpos
  have hlt := hputs put (List.mem_of_getElem? hput)
  rw [show (g.item put.site).pos = pos from hpos] at hlt
  exact UInt16.lt_irrefl _ hlt

/-- A case stands in the listing if it is found there when lines have been put before its condition. -/
theorem stands_of_switchCase? (h : g.Overlays marks puts g') (hg : g.Ordered)
    (hputs : ∀ put ∈ puts, (g.item put.site).pos < (g.item condition).pos)
    (hopened : (g.item condition).isOpenExpression = true) (he : (g.item condition).expression? = some e)
    (hsplit : splitComparison? e.text = some (subject, value)) (hcase : g'.switchCase? condition stop = some case) :
    (⟨condition, e, value, case⟩ : WrittenCase).Stands g subject case.join := by
  simp only [Graph.switchCase?, Option.bind_eq_bind, Option.bind_eq_some_iff, Option.guard_eq_some',
    exists_const] at hcase
  obtain ⟨branch, hbranch, behind, hbehind, exit, hexit, join, hjoin, -, hsame⟩ := hcase
  cases hsame
  obtain ⟨hbeq, hforward, htests⟩ := Graph.openTarget?_of_forwardBranch? h.ordered hbranch
  replace hbeq := h.openTarget?_of hbeq
  have hbranchOld := Graph.lt_size_of_openTarget? hbeq
  have hbefore {a b : ItemId} (ha : a < g.size) (hb : b < g.size) (hab : Precedes g'.order a b) : Precedes g.order a b :=
    hab.of_sublist h.ordered.nodup h.order ((hg.mem_order a).2 ha) ((hg.mem_order b).2 hb)
  replace htests := hbefore (Graph.bare_of_isOpenExpression hopened).1 hbranchOld htests
  rw [h.pos_eq hbranchOld] at hforward
  have hposCondition : (g.item condition).pos < branch.target := UInt16.lt_of_le_of_lt (hg.pos_le htests) hforward
  -- The jumps at the end stand in front of the place where the branch leads.
  have hfind := findPos?_behind h hg (fun put hput => UInt16.lt_trans (hputs put hput) hposCondition) hbehind
  have hjump := h.openTarget?_of hjoin
  have hexitOld := Graph.lt_size_of_openTarget? hjump
  have hadjoins := h.extends.adjoins hg h.ordered hexitOld (hg.lt_of_findPos? hfind)
    (h.ordered.adjoins_prev? (h.ordered.lt_of_findPos? hbehind) hexit)
  have hposExit := hg.pos_lt_findPos? hfind hadjoins.precedes
  have hexits : ∀ id ∈ exit :: (g'.onlyJumpTo join (g'.prev? exit)).toList,
      g.openTarget? id .jmp = some join ∧ (g.item id).pos < branch.target := by
    intro id hid
    rcases List.mem_cons.1 hid with rfl | hid
    · exact ⟨hjump, hposExit⟩
    · obtain ⟨hprev, hto⟩ := Option.filter_eq_some_iff.1 (Option.mem_toList.1 hid)
      have hextra := h.openTarget?_of (of_decide_eq_true hto)
      have hle := hg.pos_le (hbefore (Graph.lt_size_of_openTarget? hextra) hexitOld
        (h.ordered.precedes_prev? (h.lt_size hexitOld) hprev))
      exact ⟨hextra, UInt16.lt_of_le_of_lt hle hposExit⟩
  refine ⟨hopened, he, hsplit, hbeq, htests, fun id hid => (hexits id hid).1, ⟨behind, hfind, hadjoins⟩,
    fun id hid => ?_, rfl⟩
  simp only [WrittenCase.marks, List.cons_append, List.nil_append, List.mem_cons, List.mem_append, List.not_mem_nil,
    or_false] at hid
  rcases hid with rfl | rfl | hid | rfl
  · exact hposCondition
  · exact hforward
  · exact (hexits id hid).2
  · exact (hexits _ (SwitchCase.lastLine_mem_exits _)).2

/-- A case that follows another one stands in the listing as well, where the branch of that one leads. -/
theorem stands_of_followingCase? (h : g.Overlays marks puts g') (hg : g.Ordered)
    (hputs : ∀ put ∈ puts, (g.item put.site).pos < k.case.next) (hk : k.Stands g subject join)
    (hfollowing : g'.followingCase? k.case subject stop = some (id, case)) :
    g.findPos? k.case.next = some id ∧
      ∃ e value, (⟨id, e, value, case⟩ : WrittenCase).Stands g subject join := by
  simp only [Graph.followingCase?, Graph.caseCondition?, Option.bind_eq_bind, Option.bind_eq_some_iff,
    Option.guard_eq_some', exists_const, Prod.exists] at hfollowing
  obtain ⟨found, ⟨site, hsite, hopen, left, value, hsplit, hleft, hpure⟩, -, next, hcase, hjoin, hpair⟩ := hfollowing
  cases hpure
  cases hpair
  have hfind := findPos?_behind h hg hputs hsite
  have hopened := h.isOpenExpression_of hopen
  have hexpression := hopened
  rw [Item.isOpenExpression, Bool.and_eq_true] at hexpression
  obtain ⟨e, he⟩ := Option.isSome_iff_exists.1 hexpression.2
  rw [Graph.conditionText_eq ((h.expression?_eq (Graph.bare_of_isOpenExpression hopened).1).trans he), hleft] at hsplit
  refine ⟨hfind, e, value, ?_⟩
  have hstands := stands_of_switchCase? h hg (fun put hput => (hg.of_findPos? hfind).2.symm ▸ hputs put hput) hopened he
    hsplit hcase
  rwa [hjoin, hk.join] at hstands

/-- A case is written over what has been written before. -/
theorem Stands.overlays_writeCase (hk : k.Stands g subject join) (h : g.Overlays marks puts g') :
    g.Overlays (marks ++ k.marks) (puts ++ k.puts) (g'.writeCase k.condition k.case) := by
  have hbare (id : ItemId) (hid : id ∈ k.marks) := hk.bare id hid
  have hcondition := hbare k.condition (by simp [WrittenCase.marks])
  have hlast := hbare k.case.lastLine (by simp [WrittenCase.marks])
  have htext : g'.conditionText k.condition = k.expression.text :=
    Graph.conditionText_eq ((h.expression?_eq hcondition.1).trans hk.expression)
  have hjumps : ∀ id ∈ [k.case.branch, k.case.exit] ++ k.case.extraExit.toList, g.Bare id :=
    fun id hid => hbare id (List.mem_append_left _ (List.mem_cons_of_mem _ hid))
  have hwritten := ((h.replace hcondition.1 hcondition.2 ⟨"case " ++ k.value ++ ":", .opens .case⟩).markAll
    hjumps).replace hlast.1 hlast.2 ⟨"break;", .closes .case⟩
  unfold Graph.writeCase
  rw [htext, hk.compares]
  simp only [List.append_assoc] at hwritten
  exact hwritten

end WrittenCase

/-! ## Chains -/

/-- A chain of cases, each of which stands where the branch of the one before it leads. -/
inductive CaseChain (g : Graph) (subject : String) (join : UInt16) :
    WrittenCase → List WrittenCase → WrittenCase → Prop where
  | last {k : WrittenCase} (hk : k.Stands g subject join) : CaseChain g subject join k [k] k
  | next {k k' last : WrittenCase} {cases : List WrittenCase} (hk : k.Stands g subject join)
      (hfollows : g.findPos? k.case.next = some k'.condition) (hrest : CaseChain g subject join k' cases last) :
      CaseChain g subject join k (k :: cases) last

namespace CaseChain

variable {g g' : Graph} {marks : List ItemId} {puts : List Put} {subject : String} {join : UInt16}
  {first stop : ItemId} {case : SwitchCase} {k last : WrittenCase} {cases : List WrittenCase}

theorem stands (h : CaseChain g subject join k cases last) : ∀ k' ∈ cases, k'.Stands g subject join := by
  induction h with
  | last hk => exact List.forall_mem_singleton.2 hk
  | next hk _ _ ih => exact List.forall_mem_cons.2 ⟨hk, ih⟩

theorem mem_first (h : CaseChain g subject join k cases last) : k ∈ cases := by
  cases h <;> exact List.mem_cons_self

theorem mem_last (h : CaseChain g subject join k cases last) : last ∈ cases := by
  induction h with
  | last => exact List.mem_cons_self
  | next _ _ _ ih => exact List.mem_cons_of_mem _ ih

/-- The last case leads furthest. -/
theorem next_le (h : CaseChain g subject join k cases last) (hg : g.Ordered) :
    ∀ k' ∈ cases, k'.case.next ≤ last.case.next := by
  induction h with
  | last => exact List.forall_mem_singleton.2 (UInt16.le_refl _)
  | @next k k' last cases hk hfollows hrest ih =>
    refine List.forall_mem_cons.2 ⟨?_, ih⟩
    have hbelow := (hrest.stands k' hrest.mem_first).below k'.condition (by simp [WrittenCase.marks])
    rw [(hg.of_findPos? hfollows).2] at hbelow
    exact UInt16.le_of_lt (UInt16.lt_of_lt_of_le hbelow (ih k' hrest.mem_first))

theorem pos_le_last (h : CaseChain g subject join k cases last) (hg : g.Ordered) :
    (g.item k.condition).pos ≤ (g.item last.condition).pos := by
  induction h with
  | last => exact UInt16.le_refl _
  | next hk hfollows hrest ih => exact UInt16.le_trans (UInt16.le_of_lt (hk.pos_lt hg hfollows)) ih

/-- The last of several cases stands behind the first. -/
theorem pos_lt_last (h : CaseChain g subject join k cases last) (hg : g.Ordered) (hcases : 1 < cases.length) :
    (g.item k.condition).pos < (g.item last.condition).pos := by
  cases h with
  | last => exact absurd hcases (Nat.lt_irrefl 1)
  | next hk hfollows hrest => exact UInt16.lt_of_lt_of_le (hk.pos_lt hg hfollows) (hrest.pos_le_last hg)

/-- Whatever is marked stands before the place where the last case leads. -/
theorem pos_lt_next (h : CaseChain g subject join k cases last) (hg : g.Ordered) :
    ∀ k' ∈ cases, ∀ id ∈ k'.marks, (g.item id).pos < last.case.next := fun k' hk' id hid =>
  UInt16.lt_of_lt_of_le ((h.stands k' hk').below id hid) (h.next_le hg k' hk')

/-- Behind a case those that follow it are written.  There is an item for each of them. -/
theorem exists_of_writeCases {fuel : Nat} (stop : ItemId) (h : g.Overlays marks puts g') (hg : g.Ordered)
    (hk : k.Stands g subject join) (hputs : ∀ put ∈ puts, (g.item put.site).pos < k.case.next)
    (hfuel : (g.after k.condition).length ≤ fuel) :
    ∃ cases last, CaseChain g subject join k cases last ∧
      g.Overlays (marks ++ cases.flatMap (·.marks)) (puts ++ cases.flatMap (·.puts))
        (Graph.writeCases subject stop (fuel + 1) g' k.condition k.case).1 ∧
      (Graph.writeCases subject stop (fuel + 1) g' k.condition k.case).2 = last.case.next := by
  induction fuel generalizing g' k marks puts with
  | zero =>
    have hbehind := (hg.mem_after (hk.bare k.condition (by simp [WrittenCase.marks])).1).2 hk.tests
    rw [List.length_eq_zero_iff.1 (Nat.le_zero.1 hfuel)] at hbehind
    exact absurd hbehind List.not_mem_nil
  | succ fuel ih =>
    have hwritten := hk.overlays_writeCase h
    rw [Graph.writeCases]
    split
    · rename_i id following hfollowing
      have hputsK : ∀ put ∈ puts ++ k.puts, (g.item put.site).pos < k.case.next := fun put hput =>
        (List.mem_append.1 hput).elim (hputs put) (hk.below_puts put)
      obtain ⟨hfind, e, value, hstands⟩ := WrittenCase.stands_of_followingCase? hwritten hg hputsK hk hfollowing
      have hcondition := hstands.below id (by simp [WrittenCase.marks])
      have hpos := (hg.of_findPos? hfind).2
      have hbehind : Precedes g.order k.condition id :=
        hg.precedes_of_pos_lt (hk.bare _ (by simp [WrittenCase.marks])).1 (hg.lt_of_findPos? hfind) (hk.pos_lt hg hfind)
      obtain ⟨cases, last, hchain, hoverlays, hnext⟩ := ih hwritten hstands
        (fun put hput => UInt16.lt_trans (hputsK put hput) (hpos ▸ hcondition))
        (Nat.le_of_lt_succ (Nat.lt_of_lt_of_le (hg.length_after_lt hbehind) hfuel))
      refine ⟨k :: cases, last, .next hk hfind hchain, ?_, hnext⟩
      rw [List.flatMap_cons, List.flatMap_cons, ← List.append_assoc, ← List.append_assoc]
      exact hoverlays
    · refine ⟨[k], k, .last hk, ?_, rfl⟩
      rwa [List.flatMap_singleton, List.flatMap_singleton]

/-- The line at the end of a switch is put before the last jump of the last case. -/
theorem findPos?_prev? (h : CaseChain g subject join k cases last) (hg : g.Ordered)
    (hoverlays : g.Overlays marks puts g') (hputs : ∀ put ∈ puts, (g.item put.site).pos < last.case.next) :
    (g'.findPos? last.case.next).bind g'.prev? = some last.case.exit := by
  obtain ⟨behind, hfind, hadjoins⟩ := (h.stands last h.mem_last).ends
  rw [hoverlays.findPos?_eq hg hfind fun put hput => UInt16.ne_of_lt (hputs put hput), Option.bind_some]
  refine hoverlays.ordered.prev?_of_adjoins (hoverlays.adjoins hg hadjoins ?_)
  rintro put hput rfl
  have hlt := hputs put hput
  rw [(hg.of_findPos? hfind).2] at hlt
  exact UInt16.lt_irrefl _ hlt

end CaseChain

/-- The lines of a switch: the one that opens it, those of its cases, and the one that closes it. -/
def switchPuts (subject : String) (first : ItemId) (cases : List WrittenCase) (last : WrittenCase) : List Put :=
  ⟨first, ⟨openingLine "switch" subject, .opens .switch⟩⟩ :: cases.flatMap (·.puts) ++
    [⟨last.case.exit, ⟨closingLine "end-switch", .closes .switch⟩⟩]

theorem length_switchPuts (subject : String) (first : ItemId) (cases : List WrittenCase) (last : WrittenCase) :
    (switchPuts subject first cases last).length = 2 * cases.length + 2 := by
  have hlines : (cases.flatMap (·.puts)).length = 2 * cases.length := by
    induction cases with
    | nil => rfl
    | cons k cases ih =>
      rw [List.flatMap_cons, List.length_append, ih, List.length_cons, WrittenCase.puts, Deed.caseLines]
      simp only [List.length_cons, List.length_nil]
      omega
  rw [switchPuts, List.length_append, List.length_cons, hlines, List.length_singleton]

/-- A switch that is found is written as a chain of cases. -/
theorem CaseChain.exists_of_structureSwitch {g : Graph} {first stop : ItemId} {subject : String} {case : SwitchCase}
    (hg : g.Ordered) (hopened : (g.item first).isOpenExpression = true)
    (hswitch : g.switchAt? first stop = some (subject, case)) :
    ∃ k cases last, k.condition = first ∧ k.case = case ∧ CaseChain g subject case.join k cases last ∧
      g.Overlays (first :: cases.flatMap (·.marks)) (switchPuts subject first cases last)
        (Graph.structureSwitch stop g first) := by
  unfold Graph.structureSwitch
  rw [if_pos hopened, hswitch]
  simp only [Graph.switchAt?, Option.bind_eq_bind, Option.bind_eq_some_iff, Prod.exists] at hswitch
  obtain ⟨left, value, hsplit, found, hfound, -, -, hpair⟩ := hswitch
  cases hpair
  have hexpression := hopened
  rw [Item.isOpenExpression, Bool.and_eq_true] at hexpression
  obtain ⟨e, he⟩ := Option.isSome_iff_exists.1 hexpression.2
  rw [Graph.conditionText_eq he] at hsplit
  have hstands := WrittenCase.stands_of_switchCase? (Graph.Overlays.refl hg) hg (fun _ h => absurd h List.not_mem_nil)
    hopened he hsplit hfound
  have hbare := Graph.bare_of_isOpenExpression hopened
  have hopening := (Graph.Overlays.refl hg).replace hbare.1 hbare.2 ⟨openingLine "switch" subject, .opens .switch⟩
  have hfirst := hstands.below first (by simp [WrittenCase.marks])
  obtain ⟨fuel, hfuel⟩ : ∃ fuel, g.size = fuel + 1 :=
    Nat.exists_eq_succ_of_ne_zero (Nat.ne_of_gt (Nat.zero_lt_of_lt hbare.1))
  have hlength := hg.length_after_lt_size hbare.1
  rw [hfuel] at hlength ⊢
  obtain ⟨cases, last, hchain, hwritten, hnext⟩ := CaseChain.exists_of_writeCases stop hopening hg hstands
    (List.forall_mem_singleton.2 hfirst) (Nat.le_of_lt_succ hlength)
  have hlast := (hchain.stands last hchain.mem_last)
  have hsite := hchain.findPos?_prev? hg hwritten fun put hput => by
    rcases List.mem_append.1 hput with hput | hput
    · rw [List.mem_singleton.1 hput]
      exact UInt16.lt_of_lt_of_le hfirst (hchain.next_le hg _ hchain.mem_first)
    · obtain ⟨k, hk, hput⟩ := List.mem_flatMap.1 hput
      exact UInt16.lt_of_lt_of_le ((hchain.stands k hk).below_puts put hput) (hchain.next_le hg k hk)
  refine ⟨_, cases, last, rfl, rfl, hchain, ?_⟩
  dsimp only
  rw [hnext, hsite]
  exact hwritten.add (hlast.bare _ (by simp [WrittenCase.marks, SwitchCase.exits])).1 _

/-! ## The pass over a function -/

namespace Decompilation

/-- What the pass over the switches of a function has made of the listing when it has tried the conditions `tried`. -/
def triedSwitches (d : Decompilation) (func : Nat) (tried : List ItemId) : Graph :=
  tried.foldl (Graph.structureSwitch (d.bounds func).2) d.graph

/-- The pass tries the expressions of the function in their order. -/
theorem runPhases_switches (d : Decompilation) (func : Nat) :
    runPhases [.switches func] d =
      { d with graph := d.triedSwitches func (d.graph.openExpressions (d.body func)) } := rfl

variable {image : Image} {strings : List String} {options : NamingOptions} {phases : List Phase} {d : Decompilation}

theorem sound_triedSwitches (hd : d = runPhases phases (.ofImage image strings options)) (func : Nat)
    (tried : List ItemId) : (d.triedSwitches func tried).Sound := by
  have honward := (well_ofImage image strings options).runPhases phases
  rw [← hd] at honward
  exact (Graph.writes_foldl honward.well.sound fun g id hg => Graph.writes_structureSwitch hg _ id).sound

/-- When the pass finds a switch it writes a chain of cases. -/
theorem exists_chain (hd : d = runPhases phases (.ofImage image strings options)) {func : Nat} {tried : List ItemId}
    {first : ItemId} {subject : String} {case : SwitchCase}
    (hopened : ((d.triedSwitches func tried).item first).isOpenExpression = true)
    (hswitch : (d.triedSwitches func tried).switchAt? first (d.bounds func).2 = some (subject, case)) :
    ∃ k cases last, k.condition = first ∧ k.case = case ∧
      CaseChain (d.triedSwitches func tried) subject case.join k cases last ∧
      (d.triedSwitches func tried).Overlays (first :: cases.flatMap (·.marks)) (switchPuts subject first cases last)
        (d.triedSwitches func (tried ++ [first])) := by
  have hconcat : d.triedSwitches func (tried ++ [first]) =
      Graph.structureSwitch (d.bounds func).2 (d.triedSwitches func tried) first := by
    rw [triedSwitches, List.foldl_append]
    rfl
  rw [hconcat]
  exact CaseChain.exists_of_structureSwitch (sound_triedSwitches hd func tried).ordered hopened hswitch

end Decompilation

end Parley
