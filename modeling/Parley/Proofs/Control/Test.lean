import Parley.Proofs.Control.Round
import Parley.Proofs.Structure.Balance
set_option autoImplicit false

/-!
# Every branch is explained by one test

Each deed writes a line that tests a condition and marks the branch that tested it, or neither.  So the conditional
branches of a function and the lines in it that test conditions correspond to each other, and to conditions that were
open before.
-/

namespace Parley

open Fallible

/-- A condition with its branch and with the line that shows the test. -/
structure Test extends Condition where
  line : ItemId

/-! ## What a deed tests -/

namespace Deed

variable {deed : Deed} {c : Condition} {i : Nat}

/-- The test that a deed writes into a listing with `size` items. -/
def tests (size : Nat) (deed : Deed) : List Test := deed.test?.toList.map fun found => ⟨found.1, size + found.2⟩

theorem mem_tests {size : Nat} {test : Test} :
    test ∈ deed.tests size ↔ ∃ c i, deed.test? = some (c, i) ∧ test = ⟨c, size + i⟩ := by
  simp only [tests, List.mem_map, Option.mem_toList, Prod.exists]
  exact exists_congr fun c => exists_congr fun i => and_congr_right fun _ => eq_comm

/-- Among the lines of a deed just the one of its test tests a condition. -/
theorem tests_iff {put : Put} (h : deed.puts[i]? = some put) :
    put.statement.role.tests = true ↔ ∃ c, deed.test? = some (c, i) := by
  cases deed with
  | conditional c text jumps alternative endAt =>
    cases alternative <;> rcases i with _ | _ | _ | i <;>
      simp_all [puts, test?, StatementRole.tests] <;> subst h <;> rfl
  | _ =>
    rcases i with _ | _ | _ | i <;> simp_all [puts, caseLines, test?, StatementRole.tests, Statement.plain] <;>
      (subst h; rfl)

variable {start stop : ItemId} {w : Recovery}

namespace Fits

/-- The condition of a test is one of the function, it is marked with its branch, and the line that shows the test is
put before it. -/
theorem of_test? (h : deed.Fits start stop w) (htest : deed.test? = some (c, i)) :
    c.Fits start stop w.graph ∧ c.item ∈ deed.marks ∧ c.branch ∈ deed.marks ∧
      ∃ line, deed.puts[i]? = some ⟨c.item, line⟩ ∧ c.expression.TestedBy line := by
  cases h with
  | whileLoop condition =>
    cases htest
    exact ⟨condition, by simp [marks], by simp [marks], _, rfl, .whileLoop⟩
  | doWhile condition =>
    cases htest
    exact ⟨condition, by simp [marks], by simp [marks], _, rfl, .doWhile⟩
  | conditional condition htext =>
    cases htest
    refine ⟨condition, by simp [marks], by simp [marks], _, rfl, ?_⟩
    rcases htext with rfl | rfl
    · exact .conditional
    · exact .inverted
  | switch condition hvalue =>
    cases htest
    exact ⟨condition, by simp [marks], by simp [marks], _, rfl, .case hvalue⟩
  | case condition hvalue =>
    cases htest
    exact ⟨condition, by simp [marks], by simp [marks], _, rfl, .case hvalue⟩
  | gotoIf condition =>
    cases htest
    exact ⟨condition, by simp [marks], by simp [marks], _, rfl, .gotoIf _ _⟩
  | _ => cases htest

/-- Besides the condition of its test and the branch a deed marks open jumps only. -/
theorem of_mem_marks (h : deed.Fits start stop w) {id : ItemId} (hid : id ∈ deed.marks) :
    (w.graph.item id).isOpenJump = true ∨ ∃ c i, deed.test? = some (c, i) ∧ (id = c.item ∨ id = c.branch) := by
  cases h with
  | @whileLoop c branch back _ _ hloop =>
    simp only [marks, List.mem_cons, List.not_mem_nil, or_false] at hid
    rcases hid with rfl | rfl | rfl
    · exact Or.inr ⟨c, 0, rfl, Or.inl rfl⟩
    · exact Or.inr ⟨c, 0, rfl, Or.inr rfl⟩
    · exact Or.inl (LoopWork.isOpenJump_of_whileLoop? hloop)
  | @doWhile c loop extra _ _ hloop hextra =>
    simp only [marks, List.mem_append, List.mem_cons, List.not_mem_nil, or_false, Option.mem_toList]
      at hid
    rcases hid with (rfl | rfl | rfl) | hid
    · exact Or.inr ⟨c, 1, rfl, Or.inl rfl⟩
    · exact Or.inr ⟨c, 1, rfl, Or.inr rfl⟩
    · exact Or.inl (LoopWork.isOpenJump_of_doWhile? hloop)
    · exact Or.inl (hextra id hid).1
  | @conditional c _ jumps _ _ _ _ hjumps =>
    simp only [marks, List.mem_append, List.mem_cons, List.not_mem_nil, or_false] at hid
    rcases hid with hid | rfl | rfl
    · exact Or.inl (hjumps id hid)
    · exact Or.inr ⟨c, 0, rfl, Or.inr rfl⟩
    · exact Or.inr ⟨c, 0, rfl, Or.inl rfl⟩
  | @switch _ _ c exits last _ _ hexits hlast =>
    simp only [marks, List.mem_append, List.mem_cons, List.not_mem_nil, or_false] at hid
    rcases hid with ((rfl | rfl | rfl) | hid) | rfl
    · exact Or.inr ⟨c, 1, rfl, Or.inl rfl⟩
    · exact Or.inr ⟨c, 1, rfl, Or.inl rfl⟩
    · exact Or.inr ⟨c, 1, rfl, Or.inr rfl⟩
    · exact Or.inl (hexits id hid)
    · exact Or.inl (hexits id hlast)
  | @case _ _ c exits last _ _ hexits hlast =>
    simp only [marks, List.mem_append, List.mem_cons, List.not_mem_nil, or_false] at hid
    rcases hid with ((rfl | rfl) | hid) | rfl
    · exact Or.inr ⟨c, 0, rfl, Or.inl rfl⟩
    · exact Or.inr ⟨c, 0, rfl, Or.inr rfl⟩
    · exact Or.inl (hexits id hid)
    · exact Or.inl (hexits id hlast)
  | endSwitch => cases hid
  | returns hjump => exact Or.inl (List.mem_singleton.1 hid ▸ hjump)
  | continues hjump => exact Or.inl (List.mem_singleton.1 hid ▸ hjump)
  | goto hjump => exact Or.inl (List.mem_singleton.1 hid ▸ hjump)
  | @gotoIf c =>
    simp only [marks, List.mem_cons, List.not_mem_nil, or_false] at hid
    rcases hid with rfl | rfl
    · exact Or.inr ⟨c, 0, rfl, Or.inr rfl⟩
    · exact Or.inr ⟨c, 0, rfl, Or.inl rfl⟩
  | label => cases hid

/-- A conditional branch is marked by a deed if it is the one of its test. -/
theorem mem_marks_iff (h : deed.Fits start stop w) {id : ItemId} (hid : (w.graph.item id).isConditional = true) :
    id ∈ deed.marks ↔ ∃ c i, deed.test? = some (c, i) ∧ id = c.branch := by
  refine ⟨fun hmem => ?_, fun ⟨c, i, htest, hsame⟩ => hsame ▸ (h.of_test? htest).2.2.1⟩
  rcases h.of_mem_marks hmem with hjump | ⟨c, i, htest, rfl | rfl⟩
  · rw [Item.isConditional_of_isOpenJump hjump] at hid
    cases hid
  · rw [(Graph.inert_of_expression? (by rw [(h.of_test? htest).1.expression]; rfl)).branch] at hid
    cases hid
  · exact ⟨c, i, htest, rfl⟩

end Fits

end Deed

/-! ## The tests of a recovery -/

/-- In the later listing a test shows that its condition and its branch, which were open before, have been
consumed. -/
structure Test.Explains (start stop : ItemId) (g : Graph) (test : Test) (g' : Graph) : Prop where
  fits : test.toCondition.Fits start stop g
  marked : (g'.item test.item).processed = true
  fresh : g.size ≤ test.line
  within : g'.Within start stop test.line
  before : Precedes g'.order test.line test.item
  pos : (g'.item test.line).pos = (g'.item test.item).pos
  shown : ∃ line, (g'.item test.line).controlLine? = some line ∧ test.expression.TestedBy line

/-- Between two listings the tests have been written, and no other lines that test conditions; just their branches have
been consumed, and no two tests have a condition, a branch or a line in common. -/
structure Graph.Tested (start stop : ItemId) (g : Graph) (tests : List Test) (g' : Graph) : Prop where
  lines : ∀ id, (g'.item id).tests = true ↔ (g.item id).tests = true ∨ id ∈ tests.map (·.line)
  branches : ∀ id, (g.item id).isConditional = true →
    ((g'.item id).processed = true ↔ (g.item id).processed = true ∨ id ∈ tests.map (·.branch))
  nodupItems : (tests.map (·.item)).Nodup
  nodupBranches : (tests.map (·.branch)).Nodup
  nodupLines : (tests.map (·.line)).Nodup
  explains : ∀ test ∈ tests, test.Explains start stop g g'

namespace Graph

variable {g g' g'' : Graph} {start stop : ItemId} {c : Condition} {test : Test} {tests tests' : List Test}

theorem Retains.lt_size_of_expression? (h : g.Retains g') {id : ItemId}
    (hid : (g'.item id).expression?.isSome = true) : id < g.size := by
  by_contra hge
  rw [h.made id (Nat.le_of_not_lt hge)] at hid
  cases hid

/-- A condition that is open is one that was open before. -/
theorem Retains.fits_of (h : g.Retains g') (hg : g.Ordered) (hbounds : Precedes g.order start stop)
    (hc : c.Fits start stop g') : c.Fits start stop g := by
  have hitem := h.lt_size_of_expression? (by rw [hc.expression]; rfl)
  have hbranch := h.longer.lt_of_isOpcodeItem (Item.isOpcodeItem_of_isConditional hc.conditional)
  have hopened {id : ItemId} (hid : id < g.size) (hopen : (g'.item id).processed = false) :
      (g.item id).processed = false := by
    rw [Bool.eq_false_iff] at hopen ⊢
    exact fun hmarked => hopen (h.longer.processed id hid hmarked)
  exact ⟨hopened hitem hc.opened, (h.expression? _ hitem).symm.trans hc.expression,
    (h.longer.within_iff hg h.ordered hbounds hitem).1 hc.within, hopened hbranch hc.openedBranch,
    (Item.isConditional_of_opcodeItem? (h.opcodeItem? _ hbranch)).symm.trans hc.conditional,
    (h.longer.within_iff hg h.ordered hbounds hbranch).1 hc.withinBranch⟩

theorem Retains.explains_of (h : g.Retains g') (hg : g.Ordered) (hbounds : Precedes g.order start stop)
    (htest : test.Explains start stop g' g'') : test.Explains start stop g g'' where
  fits := h.fits_of hg hbounds htest.fits
  marked := htest.marked
  fresh := h.longer.size.trans htest.fresh
  within := htest.within
  before := htest.before
  pos := htest.pos
  shown := htest.shown

theorem Retains.explains (h : g'.Retains g'') (hg' : g'.Ordered) (htest : test.Explains start stop g g') :
    test.Explains start stop g g'' := by
  have hitem := hg'.lt_of_mem htest.before.right_mem
  have hline := hg'.lt_of_mem htest.before.left_mem
  refine ⟨htest.fits, h.longer.processed _ hitem htest.marked, htest.fresh, htest.within.mono h.longer.order,
    htest.before.mono h.longer.order, ?_, htest.shown.imp fun line hshown => ?_⟩
  · exact ((congrArg Prod.fst (h.longer.code _ hline)).trans htest.pos).trans
      (congrArg Prod.fst (h.longer.code _ hitem)).symm
  · exact ⟨(h.controlLine? _ hline).trans hshown.1, hshown.2⟩

namespace Tested

theorem refl : g.Tested start stop [] g where
  lines _ := (or_iff_left List.not_mem_nil).symm
  branches _ _ := (or_iff_left List.not_mem_nil).symm
  nodupItems := List.nodup_nil
  nodupBranches := List.nodup_nil
  nodupLines := List.nodup_nil
  explains _ h := absurd h List.not_mem_nil

theorem line_lt_size (h : g.Tested start stop tests g') (hg' : g'.Ordered) {id : ItemId}
    (hid : id ∈ tests.map (·.line)) : id < g'.size := by
  obtain ⟨test, htest, rfl⟩ := List.mem_map.1 hid
  exact hg'.lt_of_mem (h.explains test htest).before.left_mem

theorem trans (h : g.Tested start stop tests g') (h' : g'.Tested start stop tests' g'') (hg : g.Ordered)
    (hbounds : Precedes g.order start stop) (hretains : g.Retains g') (hretains' : g'.Retains g'') :
    g.Tested start stop (tests ++ tests') g'' where
  lines id := by rw [h'.lines, h.lines, List.map_append, List.mem_append, or_assoc]
  branches id hid := by
    have hop := hretains.opcodeItem? id (Graph.lt_size_of_isOpcodeItem (Item.isOpcodeItem_of_isConditional hid))
    rw [h'.branches id ((Item.isConditional_of_opcodeItem? hop).trans hid), h.branches id hid, List.map_append,
      List.mem_append, or_assoc]
  nodupItems := by
    rw [List.map_append]
    refine h.nodupItems.append h'.nodupItems fun id hid hid' => ?_
    obtain ⟨test, htest, rfl⟩ := List.mem_map.1 hid
    obtain ⟨test', htest', hsame⟩ := List.mem_map.1 hid'
    have hopen := (h'.explains test' htest').fits.opened
    rw [hsame, (h.explains test htest).marked] at hopen
    cases hopen
  nodupBranches := by
    rw [List.map_append]
    refine h.nodupBranches.append h'.nodupBranches fun id hid hid' => ?_
    obtain ⟨test, htest, rfl⟩ := List.mem_map.1 hid
    obtain ⟨test', htest', hsame⟩ := List.mem_map.1 hid'
    have hopen := (h'.explains test' htest').fits.openedBranch
    rw [hsame, (h.branches _ (h.explains test htest).fits.conditional).2 (Or.inr hid)] at hopen
    cases hopen
  nodupLines := by
    rw [List.map_append]
    refine h.nodupLines.append h'.nodupLines fun id hid hid' => ?_
    obtain ⟨test', htest', rfl⟩ := List.mem_map.1 hid'
    exact absurd (h.line_lt_size hretains.ordered hid) (Nat.not_lt.2 (h'.explains test' htest').fresh)
  explains test htest := by
    rcases List.mem_append.1 htest with htest | htest
    · exact hretains'.explains hretains.ordered (h.explains test htest)
    · exact hretains.explains_of hg hbounds (h'.explains test htest)

end Tested

end Graph

namespace Recovery

variable {start stop : ItemId} {w w' : Recovery} {deed : Deed}

/-- What a deed tests. -/
theorem Does.tested (h : w.Does start stop deed w') :
    w.graph.Tested start stop (deed.tests w.graph.size) w'.graph := by
  have hnodup {f : Test → ItemId} : ((deed.tests w.graph.size).map f).Nodup := by
    unfold Deed.tests
    cases deed.test? <;> simp
  refine ⟨fun id => ?_, fun id hid => ?_, hnodup, hnodup, hnodup, fun test htest => ?_⟩
  · constructor
    · intro htests
      obtain ⟨line, hline, hrole⟩ := Item.exists_line_of_tests htests
      rcases h.overlays.controlLine?_iff.1 hline with hold | ⟨-, i, site, hput, rfl⟩
      · exact Or.inl ((Item.tests_of_controlLine? hold).trans hrole)
      · obtain ⟨c, hc⟩ := (Deed.tests_iff hput).1 hrole
        exact Or.inr (List.mem_map.2 ⟨_, Deed.mem_tests.2 ⟨c, i, hc, rfl⟩, rfl⟩)
    · rintro (hold | hnew)
      · obtain ⟨line, hline, hrole⟩ := Item.exists_line_of_tests hold
        rw [Item.tests_of_controlLine? (h.overlays.controlLine?_iff.2 (Or.inl hline)), hrole]
      · obtain ⟨test, htest, rfl⟩ := List.mem_map.1 hnew
        obtain ⟨c, i, hc, rfl⟩ := Deed.mem_tests.1 htest
        obtain ⟨-, -, -, line, hput, htested⟩ := h.fits.of_test? hc
        have hrole := htested.tests
        rw [Item.tests_of_controlLine? (h.overlays.controlLine?_iff.2
          (Or.inr ⟨StatementRole.isControl_of_tests hrole, i, c.item, hput, rfl⟩)), hrole]
  · have hlt := Graph.lt_size_of_isOpcodeItem (Item.isOpcodeItem_of_isConditional hid)
    rw [h.overlays.processed_iff hlt, h.fits.mem_marks_iff hid]
    refine or_congr_right ⟨fun ⟨c, i, hc, hsame⟩ => ?_, fun hmem => ?_⟩
    · exact List.mem_map.2 ⟨_, Deed.mem_tests.2 ⟨c, i, hc, rfl⟩, hsame.symm⟩
    · obtain ⟨test, htest, rfl⟩ := List.mem_map.1 hmem
      obtain ⟨c, i, hc, rfl⟩ := Deed.mem_tests.1 htest
      exact ⟨c, i, hc, rfl⟩
  · obtain ⟨c, i, hc, rfl⟩ := Deed.mem_tests.1 htest
    obtain ⟨hfits, hitem, -, line, hput, htested⟩ := h.fits.of_test? hc
    obtain ⟨hsite, hline, hbefore, hbehind⟩ := h.overlays.put i _ hput
    have hstop := hfits.within.2.mono h.overlays.order
    refine ⟨hfits, (h.overlays.processed_iff hsite).2 (Or.inr hitem), Nat.le_add_right _ _,
      ⟨hbehind _ hfits.within.1, hbefore.trans h.overlays.ordered.nodup hstop⟩, hbefore, ?_, line, ?_, htested⟩
    · rw [hline, h.overlays.pos_eq hsite]
      rfl
    · exact h.overlays.controlLine?_iff.2
        (Or.inr ⟨StatementRole.isControl_of_tests htested.tests, i, c.item, hput, rfl⟩)

/-- What a recovery tests. -/
theorem Leads.exists_tested (h : w.Leads start stop w') (hg : w.graph.Ready start stop) :
    ∃ tests, w.graph.Tested start stop tests w'.graph := by
  induction h with
  | refl => exact ⟨[], .refl⟩
  | tail hleads hstep ih =>
    obtain ⟨deed, hdoes⟩ := hstep
    obtain ⟨tests, htested⟩ := ih
    exact ⟨_, htested.trans hdoes.tested hg.ordered hg.bounds (Leads.retains hleads hg.ordered)
      hdoes.overlays.retains⟩

end Recovery

/-! ## The tests in a function -/

namespace Item

theorem tests_of_controlLine?_eq {a b : Item} (h : b.controlLine? = a.controlLine?) : b.tests = a.tests := by
  rw [tests, h, tests]

end Item

/-- A test takes the place of a condition in a function that was open before. -/
structure Test.Replaces (before : Decompilation) (func : Nat) (test : Test) (d : Decompilation) : Prop where
  inside : test.item ∈ before.body func
  opened : (before.graph.item test.item).processed = false
  expression : (before.graph.item test.item).expression? = some test.expression
  consumed : (d.graph.item test.item).processed = true
  precedes : Precedes d.graph.order test.line test.item
  pos : (d.graph.item test.line).pos = (d.graph.item test.item).pos
  shown : ∃ line, (d.graph.item test.line).controlLine? = some line ∧ test.expression.TestedBy line

namespace Decompilation

variable {found d d' before after : Decompilation} {done : List Nat} {func : Nat} {f : Frame} {w : Recovery}
  {tests : List Test} {id : ItemId}

/-- The tests are those of a function: their lines are the lines in it that test conditions, their branches are its
conditional branches, and each takes the place of another condition. -/
structure Explained (before : Decompilation) (func : Nat) (tests : List Test) (d : Decompilation) : Prop where
  lines : (tests.map (·.line)).Perm ((d.body func).filter fun id => (d.graph.item id).tests)
  branches : (tests.map (·.branch)).Perm ((d.body func).filter fun id => (d.graph.item id).isConditional)
  distinct : (tests.map (·.item)).Nodup
  replaces : ∀ test ∈ tests, test.Replaces before func d

/-- As many conditional branches as lines that test conditions stand in the function. -/
theorem Explained.countP_eq (h : Explained before func tests d) :
    ((d.body func).countP fun id => (d.graph.item id).isConditional) =
      (d.body func).countP fun id => (d.graph.item id).tests := by
  rw [List.countP_eq_length_filter, List.countP_eq_length_filter, ← h.lines.length_eq, ← h.branches.length_eq,
    List.length_map, List.length_map]

/-! ### Later stages -/

/-- The items of a function that are counted are the same in a longer listing, if no new ones are. -/
theorem filter_body (hd : d.Well) (hd' : d'.Well) (hf : d.frames[func]? = some f) (hlonger : d.graph.Extends d'.graph)
    (hframes : d'.frames = d.frames) {p p' : ItemId → Bool} (hold : ∀ id < d.graph.size, p' id = p id)
    (hnew : ∀ id, d.graph.size ≤ id → id ∈ d'.body func → p' id = false) :
    (d'.body func).filter p' = (d.body func).filter p := by
  have hbounds := (hd.fits f (List.mem_of_getElem? hf)).ordered
  have hbody : (d'.body func).filter (· < d.graph.size) = d.body func := by
    rw [body_of_getElem? hf, body_of_getElem? (hframes ▸ hf)]
    exact hlonger.filter_between hd.sound.ordered hd'.sound.ordered (hd.sound.ordered.lt_of_mem hbounds.left_mem)
      (hd.sound.ordered.lt_of_mem hbounds.right_mem)
  rw [← hbody, List.filter_filter]
  refine List.filter_congr fun id hid => ?_
  by_cases hlt : id < d.graph.size
  · simp [hlt, hold id hlt]
  · simp [hlt, hnew id (Nat.le_of_not_lt hlt) hid]

/-- What happens to a decompilation where a function is left alone: its listing gets longer, and no more conditions are
tested in the function. -/
structure Spares (func : Nat) (d d' : Decompilation) : Prop where
  well : d'.Well
  longer : d.graph.Extends d'.graph
  frames : d'.frames = d.frames
  op : ∀ id < d.graph.size, (d'.graph.item id).opcodeItem? = (d.graph.item id).opcodeItem?
  lines : ∀ id < d.graph.size, (d'.graph.item id).controlLine? = (d.graph.item id).controlLine?
  tests : ∀ id, d.graph.size ≤ id → (d'.graph.item id).tests = true → ¬ d'.Has func id

theorem Explained.spares (h : Explained before func tests d) (hd : d.Well) (hf : d.frames[func]? = some f)
    (hspares : d.Spares func d') : Explained before func tests d' where
  lines := by
    rw [filter_body hd hspares.well hf hspares.longer hspares.frames
      (fun id hid => Item.tests_of_controlLine?_eq (hspares.lines id hid)) fun id hid hmem => ?_]
    · exact h.lines
    · rw [mem_body_iff hspares.well (hspares.frames ▸ hf)] at hmem
      exact Bool.eq_false_iff.2 fun htests => hspares.tests id hid htests hmem
  branches := by
    rw [filter_body hd hspares.well hf hspares.longer hspares.frames
      (fun id hid => Item.isConditional_of_opcodeItem? (hspares.op id hid)) fun id hid _ => ?_]
    · exact h.branches
    · exact Bool.eq_false_iff.2 fun hbranch =>
        absurd (hspares.longer.lt_of_isOpcodeItem (Item.isOpcodeItem_of_isConditional hbranch)) (Nat.not_lt.2 hid)
  distinct := h.distinct
  replaces test htest := by
    obtain ⟨hinside, hopened, hexpression, hconsumed, hprecedes, hpos, line, hline, htested⟩ := h.replaces test htest
    have hitem := hd.sound.ordered.lt_of_mem hprecedes.right_mem
    have hlt := hd.sound.ordered.lt_of_mem hprecedes.left_mem
    refine ⟨hinside, hopened, hexpression, hspares.longer.processed _ hitem hconsumed,
      hprecedes.mono hspares.longer.order, ?_, line, (hspares.lines _ hlt).trans hline, htested⟩
    exact ((congrArg Prod.fst (hspares.longer.code _ hlt)).trans hpos).trans
      (congrArg Prod.fst (hspares.longer.code _ hitem)).symm

/-- What leaves the control structure alone spares all functions. -/
theorem Calm.spares {start stop : ItemId} (h : d.Calm start stop d') (hd' : d'.Well) (func : Nat) :
    d.Spares func d' where
  well := hd'
  longer := h.longer
  frames := h.frames
  op _ := h.op
  lines id _ := h.lines id
  tests id hid htests := by
    rw [Item.tests_of_controlLine?_eq (h.lines id), Graph.item_of_size_le hid] at htests
    cases htests

end Decompilation

/-! ### Rounds -/

namespace Round

variable {func : Nat} {f : Frame} {d before after d' : Decompilation} {w : Recovery} {id : ItemId}
  (h : Round func f d before w after d')

include h

theorem exists_tested : ∃ tests, before.graph.Tested f.startItem f.endItem tests after.graph := by
  have htested := h.cleared.leads.exists_tested h.ready
  rwa [← h.cleared.reached.graph] at htested

/-- The lines that are written in a round and test conditions stand in its function, and so do the branches that are
consumed. -/
theorem confined :
    ((d'.graph.item id).tests = true → (d.graph.item id).tests = true ∨ d'.Has func id) ∧
      ((d.graph.item id).isConditional = true → (d'.graph.item id).processed = true →
        (d.graph.item id).processed = true ∨ d'.Has func id) := by
  obtain ⟨tests, htested⟩ := h.exists_tested
  have hhas {id : ItemId} (hwithin : after.graph.Within f.startItem f.endItem id) : d'.Has func id :=
    ⟨f, h.frames ▸ h.frame, hwithin.mono h.signed.longer.order⟩
  refine ⟨fun htests => ?_, fun hbranch hmarked => ?_⟩
  · rw [Item.tests_of_controlLine?_eq (h.signed.lines id), htested.lines,
      Item.tests_of_controlLine?_eq (h.prepared.lines id)] at htests
    refine htests.imp_right fun hnew => ?_
    obtain ⟨test, htest, rfl⟩ := List.mem_map.1 hnew
    exact hhas (htested.explains test htest).within
  · have hop := h.prepared.op (Graph.lt_size_of_isOpcodeItem (Item.isOpcodeItem_of_isConditional hbranch))
    have hbefore := (Item.isConditional_of_opcodeItem? hop).trans hbranch
    have hafter := h.retains.opcodeItem? id
      (Graph.lt_size_of_isOpcodeItem (Item.isOpcodeItem_of_isConditional hbefore))
    rw [h.signed.branches id ((Item.isConditional_of_opcodeItem? hafter).trans hbefore), htested.branches id hbefore,
      h.prepared.branches id hbranch] at hmarked
    refine hmarked.imp_right fun hnew => ?_
    obtain ⟨test, htest, rfl⟩ := List.mem_map.1 hnew
    exact hhas ((htested.explains test htest).fits.withinBranch.mono h.retains.longer.order)

end Round

namespace Decompilation

variable {found d d' before after : Decompilation} {done : List Nat} {func func' : Nat} {f : Frame} {w : Recovery}
  {id : ItemId}

/-- Conditions have been tested in the functions of `done` only. -/
structure Confined (done : List Nat) (d : Decompilation) : Prop where
  lines : ∀ id, (d.graph.item id).tests = true → ∃ func ∈ done, d.Has func id
  branches : ∀ id, (d.graph.item id).isConditional = true → (d.graph.item id).processed = true →
    ∃ func ∈ done, d.Has func id

theorem confined_start (hcharted : found.graph.Charted) : found.Confined [] where
  lines id htests := by
    rw [Item.tests, Item.controlLine?_of_statement? (hcharted.unreduced id).2] at htests
    cases htests
  branches id hbranch hmarked := by
    rw [hcharted.opened id (Item.isJump_of_isConditional hbranch)] at hmarked
    cases hmarked

theorem Confined.concat (h : d.Confined done) (hround : Round func f d before w after d') :
    d'.Confined (done ++ [func]) := by
  have hold {id : ItemId} (hhas : ∃ func ∈ done, d.Has func id) : ∃ func' ∈ done ++ [func], d'.Has func' id := by
    obtain ⟨func', hfunc', hhas⟩ := hhas
    exact ⟨func', List.mem_append_left _ hfunc', hhas.mono hround.longer hround.frames⟩
  have hnew {id : ItemId} (hhas : d'.Has func id) : ∃ func' ∈ done ++ [func], d'.Has func' id :=
    ⟨func, List.mem_append_right _ List.mem_cons_self, hhas⟩
  refine ⟨fun id htests => ?_, fun id hbranch hmarked => ?_⟩
  · exact (hround.confined.1 htests).elim (fun htests => hold (h.lines id htests)) hnew
  · have hlt := hround.longer.lt_of_isOpcodeItem (Item.isOpcodeItem_of_isConditional hbranch)
    rw [Item.isConditional_of_opcodeItem? (hround.op hlt)] at hbranch
    exact (hround.confined.2 hbranch hmarked).elim (fun hmarked => hold (h.branches id hbranch hmarked)) hnew

theorem Rounds.confined (h : found.Rounds done d) (hfound : found.Surveyed) (hcharted : found.graph.Charted) :
    d.Confined done := by
  induction h with
  | start => exact confined_start hcharted
  | round h hreaches _ hrun ih =>
    obtain ⟨f, hf⟩ := hreaches.exists_frame
    have haccount := h.account hfound hcharted
    obtain ⟨before, w, after, hround⟩ := haccount.exists_round hfound hcharted hf hrun
    exact ih.concat hround

/-- The round of another function spares a function. -/
theorem Account.spares (h : found.Account done d) (hfound : found.Surveyed) (hcharted : found.graph.Charted)
    (hround : Round func' f d before w after d') (hne : func' ≠ func) : d.Spares func d' where
  well := hround.well h.well
  longer := hround.longer
  frames := hround.frames
  op _ := hround.op
  lines _ := hround.line
  tests id hid htests hhas := by
    rcases hround.confined.1 htests with hold | hhas'
    · obtain ⟨line, hline, -⟩ := Item.exists_line_of_tests hold
      exact absurd (Item.lt_size_of_controlLine? hline) (Nat.not_lt.2 hid)
    · exact hne ((h.concat hfound hcharted hround).eq_of_has hfound hhas' hhas)

section Round

variable (h : found.Account done d) (hfound : found.Surveyed) (hnew : func ∉ done)
  (hround : Round func f d before w after d')

include h hfound hnew hround

/-- What stood in a function before its round stood in none that has been decompiled. -/
theorem Account.not_has_done {id : ItemId} (hid : id < d.graph.size)
    (hwithin : after.graph.Within f.startItem f.endItem id) : ¬ ∃ func' ∈ done, d.Has func' id := by
  rintro ⟨func', hfunc', hhas'⟩
  have hfAfter : after.frames[func]? = some f := hround.framesAfter ▸ hround.prepared.frames ▸ hround.frame
  have hhas : d.Has func id :=
    (has_iff_of_extends h.well (hround.wellAfter h.well) (hround.prepared.longer.trans hround.retains.longer)
      (hround.framesAfter.trans hround.prepared.frames) hid).1 ⟨f, hfAfter, hwithin⟩
  exact hnew (h.eq_of_has hfound hhas hhas' ▸ hfunc')

/-- A branch of the function is open before its round and marked behind it, so it is one that is explained. -/
theorem Account.mem_branches (hcharted : found.graph.Charted) (hconfined : d.Confined done) {tests : List Test}
    (htested : before.graph.Tested f.startItem f.endItem tests after.graph) {id : ItemId}
    (hwithin : after.graph.Within f.startItem f.endItem id) (hbranch : (after.graph.item id).isConditional = true) :
    id ∈ tests.map (·.branch) := by
  have hlt := (hround.prepared.longer.trans hround.retains.longer).lt_of_isOpcodeItem
    (Item.isOpcodeItem_of_isConditional hbranch)
  have hopAfter : (after.graph.item id).opcodeItem? = (before.graph.item id).opcodeItem? :=
    hround.retains.opcodeItem? id (Nat.lt_of_lt_of_le hlt hround.prepared.longer.size)
  have hbranchBefore := (Item.isConditional_of_opcodeItem? hopAfter).symm.trans hbranch
  have hbranchOld := (Item.isConditional_of_opcodeItem? (hround.prepared.op hlt)).symm.trans hbranchBefore
  have hspent := (h.concat hfound hcharted hround).spent func (List.mem_append_right _ List.mem_cons_self) id
    ⟨f, hround.frames ▸ hround.frame, hwithin.mono hround.signed.longer.order⟩
    (Item.isJump_of_isConditional ((Item.isConditional_of_opcodeItem? (hround.op hlt)).trans hbranchOld))
  rw [hround.signed.branches id hbranch, htested.branches id hbranchBefore,
    hround.prepared.branches id hbranchOld] at hspent
  exact hspent.resolve_left fun hold =>
    h.not_has_done hfound hnew hround hlt hwithin (hconfined.branches id hbranchOld hold)

/-- A line of the function that tests a condition is one that has been put in its round. -/
theorem Account.mem_lines (hconfined : d.Confined done) {tests : List Test}
    (htested : before.graph.Tested f.startItem f.endItem tests after.graph) {id : ItemId}
    (hwithin : after.graph.Within f.startItem f.endItem id) (htests : (after.graph.item id).tests = true) :
    id ∈ tests.map (·.line) := by
  refine ((htested.lines id).1 htests).resolve_left fun hold => ?_
  rw [Item.tests_of_controlLine?_eq (hround.prepared.lines id)] at hold
  obtain ⟨line, hline, -⟩ := Item.exists_line_of_tests hold
  exact h.not_has_done hfound hnew hround (Item.lt_size_of_controlLine? hline) hwithin (hconfined.lines id hold)

/-- In its round the branches of a function are explained. -/
theorem Account.explained (hcharted : found.graph.Charted) (hconfined : d.Confined done) :
    ∃ tests, Explained before func tests after := by
  obtain ⟨tests, htested⟩ := hround.exists_tested
  have hbefore := hround.wellBefore h.well
  have hafter := hround.wellAfter h.well
  have hfBefore : before.frames[func]? = some f := hround.prepared.frames ▸ hround.frame
  have hfAfter : after.frames[func]? = some f := hround.framesAfter ▸ hfBefore
  have hmem (id : ItemId) : id ∈ after.body func ↔ after.graph.Within f.startItem f.endItem id :=
    (mem_body_iff hafter hfAfter).trans (has_iff hfAfter)
  have hnodup : (after.body func).Nodup := hafter.sound.ordered.nodup.sublist (after.sublist_body func)
  refine ⟨tests, ⟨?_, ?_, htested.nodupItems, fun test htest => ?_⟩⟩
  · refine (List.perm_ext_iff_of_nodup htested.nodupLines (hnodup.filter _)).2 fun id => ?_
    rw [List.mem_filter, hmem]
    refine ⟨fun hid => ?_, fun ⟨hwithin, htests⟩ => h.mem_lines hfound hnew hround hconfined htested hwithin htests⟩
    obtain ⟨test, htest, rfl⟩ := List.mem_map.1 hid
    exact ⟨(htested.explains test htest).within, (htested.lines _).2 (Or.inr hid)⟩
  · refine (List.perm_ext_iff_of_nodup htested.nodupBranches (hnodup.filter _)).2 fun id => ?_
    rw [List.mem_filter, hmem]
    refine ⟨fun hid => ?_, fun ⟨hwithin, hbranch⟩ =>
      h.mem_branches hfound hnew hround hcharted hconfined htested hwithin hbranch⟩
    obtain ⟨test, htest, rfl⟩ := List.mem_map.1 hid
    have hfits := (htested.explains test htest).fits
    have hop := hround.retains.opcodeItem? _
      (Graph.lt_size_of_isOpcodeItem (Item.isOpcodeItem_of_isConditional hfits.conditional))
    exact ⟨hfits.withinBranch.mono hround.retains.longer.order,
      (Item.isConditional_of_opcodeItem? hop).trans hfits.conditional⟩
  · have hexplains := htested.explains test htest
    exact ⟨(mem_body_iff hbefore hfBefore).2 ⟨f, hfBefore, hexplains.fits.within⟩, hexplains.fits.opened,
      hexplains.fits.expression, hexplains.marked, hexplains.before, hexplains.pos, hexplains.shown⟩

end Round

/-- All jumps of a function have been replaced in the end. -/
theorem Ended.spent {last : Decompilation} (h : Ended found done last d) (hf : d.frames[func]? = some f)
    (hfunc : func ∈ done) :
    ∀ id ∈ d.body func, (d.graph.item id).isJump = true → (d.graph.item id).processed = true := by
  intro id hid hjump
  have hcalm := h.calm f.startItem f.endItem
  have hlt := hcalm.longer.lt_of_isOpcodeItem (Item.isOpcodeItem_of_isJump hjump)
  rw [mem_body_iff h.well hf, has_iff_of_extends h.account.well h.well hcalm.longer hcalm.frames hlt] at hid
  rw [Item.isJump_of_opcodeItem? (hcalm.op hlt)] at hjump
  exact hcalm.longer.processed id hlt (h.account.spent func hfunc id hid hjump)

/-- The control structures of a function have been recovered at a stage of the decompilation behind which its branches
are explained. -/
def ExplainedSince (origin : Decompilation) (func : Nat) (d : Decompilation) : Prop :=
  ∃ phases more tests, let before := runPhases phases origin
    d = runPhases ([.switches func, .whileLoops func, .doWhileLoops func, .conditionals func, .jumps func] ++ more)
      before ∧ Explained before func tests d

theorem ExplainedSince.spares {origin : Decompilation} (h : ExplainedSince origin func d) (hd : d.Well)
    (hf : d.frames[func]? = some f) (hspares : d.Spares func d') {further : List Phase}
    (hphases : d' = runPhases further d) : ExplainedSince origin func d' := by
  obtain ⟨phases, more, tests, hrun, hexplained⟩ := h
  refine ⟨phases, more ++ further, tests, ?_, hexplained.spares hd hf hspares⟩
  rw [hphases, hrun, ← runPhases_append, List.append_assoc]

theorem Ended.explainedSince {image : Image} {strings : List String} {options : NamingOptions} {last : Decompilation}
    (h : Ended (survey image strings options) done last d) (hf : d.frames[func]? = some f) (hfunc : func ∈ done) :
    ExplainedSince (.ofImage image strings options) func d := by
  obtain ⟨further, hfurther⟩ := h.dropping
  have hlast : last.frames[func]? = some f := (h.calm f.startItem f.endItem).frames ▸ hf
  have hfound : (survey image strings options).frames[func]? = some f := h.account.frames ▸ hlast
  refine ExplainedSince.spares ?_ h.account.well hlast ((h.calm f.startItem f.endItem).spares h.well func) hfurther
  refine h.rounds.of_mem h.surveyed h.charted hfunc
    (fun done d before w after d' f callees hrounds haccount hnew _ hround => ?_)
    (fun done d before w after d' func' f' callees haccount hne _ hround hexplained => ?_)
  · obtain ⟨tests, hexplained⟩ := haccount.explained h.surveyed hnew hround h.charted
      (hrounds.confined h.surveyed h.charted)
    obtain ⟨phases, hphases⟩ := hrounds.exists_phases h.surveyed h.charted
    have hafter := hround.wellAfter haccount.well
    have hframe : after.frames[func]? = some f :=
      hround.framesAfter ▸ hround.prepared.frames ▸ hround.frame
    have hsince : ExplainedSince (.ofImage image strings options) func after := by
      refine ⟨[.references, .discovery, .relabeling] ++ (phases ++ [.analysis func, .combination func]), [], tests, ?_⟩
      rw [runPhases_append, ← survey_eq, runPhases_append, ← hphases, ← hround.preparing]
      exact ⟨hround.recovering, hexplained⟩
    exact hsince.spares hafter hframe (hround.signed.spares (hround.well haccount.well) func) hround.signing
  · exact hexplained.spares haccount.well (haccount.frames ▸ hfound)
      (haccount.spares h.surveyed h.charted hround hne) hround.phases

end Decompilation

end Parley
