import Parley.Proofs.Source.Scene
set_option autoImplicit false

/-!
# Analysis of straight-line code

The code of a tree becomes its expressions and operations in post-order, the code of a statement those of
its trees with its own operation behind.  The analysis is followed from segment to segment: in front of
the instructions that are left the listing shows what the segments before have become.
-/

namespace Parley.Source

open Fallible

/-! ## What code becomes -/

/-- The item of an instruction before analysis. -/
def rawKind (instruction : Instruction) : ItemKind :=
  .opcode ⟨instruction.opcode.toWord, some instruction.opcode, instruction.operand, none, none⟩

/-- What becomes of the code of a tree. -/
def Tree.tokens (names : Names) : Tree → List ItemKind
  | const value => [.expression (.const value)]
  | localVar index => [.expression (.atom (Pass.localName index) false)]
  | param offset => [.expression (.atom ("param" ++ Text.decimal (Pass.paramNumber offset)) true),
      .operation (.simple .fetchm 1 true .int)]
  | global slot => [.expression (.atom (names.global slot) false)]
  | unary opcode operand => operand.tokens names ++ [.operation (.simple opcode 1 true .int)]
  | binary opcode left right =>
    left.tokens names ++ (right.tokens names ++ [.operation (.simple opcode 2 true .int)])

/-- What becomes of the push of a variable's address. -/
def Place.pushed : Place → Expr
  | localVar index => .atom (Pass.localName index) true
  | global slot => .const slot

/-- The operation of a store. -/
def storeOperation (swaps : Bool) : Operation :=
  { Operation.simple .sto 2 false .void with swapsStore := swaps }

/-- What becomes of the code of a statement. -/
def Stmt.tokens (names : Names) : Stmt → List ItemKind
  | assign place value false =>
    .expression place.pushed :: (value.tokens names ++ [.operation (storeOperation false)])
  | assign place value true =>
    value.tokens names ++ [.expression place.pushed, .operation (storeOperation true)]
  | say id => [.expression (.const id), .operation (.simple .sayOp 1 false .void)]
  | .return value => value.tokens names ++ [.operation (.simple .saveReg 1 false .void)]
  | exit => [.statement (.plain "exit;")]

/-- What becomes of the code of statements. -/
def bodyTokens (names : Names) (body : List Stmt) : List ItemKind := body.flatMap (Stmt.tokens names)

/-- Items as they are shown when nothing has replaced them. -/
def opened (kinds : List ItemKind) : List (Bool × ItemKind) := kinds.map (Prod.mk false)

theorem opened_append (kinds others : List ItemKind) :
    opened (kinds ++ others) = opened kinds ++ opened others :=
  List.map_append

/-- Whether an item is an instruction. -/
def isOpcodeKind : ItemKind → Bool
  | .opcode _ => true
  | _ => false

/-! ## Instructions that are left -/

/-- The items are these instructions, and nothing has replaced them. -/
def Raws (g : Graph) (ids : List ItemId) (code : List Instruction) : Prop :=
  ids.map g.face? = code.map fun instruction => some (false, rawKind instruction)

theorem Raws.length {g : Graph} {ids : List ItemId} {code : List Instruction} (h : Raws g ids code) :
    ids.length = code.length := by
  simpa using congrArg List.length h

theorem raws_cons {g : Graph} {id : ItemId} {ids : List ItemId} {instruction : Instruction}
    {code : List Instruction} : Raws g (id :: ids) (instruction :: code) ↔
      g.face? id = some (false, rawKind instruction) ∧ Raws g ids code := by
  simp [Raws]

theorem Raws.congr {g g' : Graph} {ids : List ItemId} {code : List Instruction} (h : Raws g ids code)
    (hfaces : ∀ id ∈ ids, g'.face? id = g.face? id) : Raws g' ids code := by
  unfold Raws
  rw [List.map_congr_left hfaces]
  exact h

/-- The instructions of the front part of a code are the front part of its items. -/
theorem Raws.split {g : Graph} {ids : List ItemId} {code rest : List Instruction}
    (h : Raws g ids (code ++ rest)) :
    ∃ block others, ids = block ++ others ∧ Raws g block code ∧ Raws g others rest := by
  have hids : ids.map g.face? = _ ++ _ := h.trans List.map_append
  obtain ⟨block, others, rfl, hblock, hothers⟩ := List.map_eq_append_iff.1 hids
  exact ⟨block, others, rfl, hblock, hothers⟩

section Raw

variable {g : Graph} {id : ItemId} {instruction : Instruction}

theorem processed_of_raw (h : g.face? id = some (false, rawKind instruction)) :
    (g.item id).processed = false :=
  (Item.face?_eq_open.1 h).1

theorem opcodeItem?_of_raw (h : g.face? id = some (false, rawKind instruction)) :
    (g.item id).opcodeItem? =
      some ⟨instruction.opcode.toWord, some instruction.opcode, instruction.operand, none, none⟩ := by
  rw [Item.opcodeItem?, (Item.face?_eq_open.1 h).2]
  rfl

theorem opcode?_of_raw (h : g.face? id = some (false, rawKind instruction)) :
    (g.item id).opcode? = some instruction.opcode := by
  rw [Item.opcode?, opcodeItem?_of_raw h]
  rfl

theorem operandOrZero_of_raw (h : g.face? id = some (false, rawKind instruction)) :
    (g.item id).operandOrZero = instruction.operand.getD 0 := by
  rw [Item.operandOrZero, opcodeItem?_of_raw h]
  rfl

theorem isOpenOpcode_of_raw (h : g.face? id = some (false, rawKind instruction)) (opcode : Opcode) :
    (g.item id).isOpenOpcode opcode = decide (instruction.opcode = opcode) := by
  simp [Item.isOpenOpcode, Item.isOpcode, processed_of_raw h, opcode?_of_raw h]

theorem isOpcode_of_raw (h : g.face? id = some (false, rawKind instruction)) (opcode : Opcode) :
    (g.item id).isOpcode opcode = decide (instruction.opcode = opcode) := by
  simp [Item.isOpcode, opcode?_of_raw h]

theorem statement?_of_raw (h : g.face? id = some (false, rawKind instruction)) :
    (g.item id).statement? = none := by
  rw [Item.statement?, (Item.face?_eq_open.1 h).2]
  rfl

end Raw

/-! ## Progress -/

/-- Behind the front part of the body the instructions `code` are left. -/
structure Ahead (scene : Scene) (d : Decompilation) (front raws : List ItemId)
    (code : List Instruction) : Prop where
  layout : Layout scene d.graph (front ++ raws)
  setting : Setting scene d
  left : Raws d.graph raws code
  straight : ∀ instruction ∈ code, isStraight instruction.opcode = true

/-- The front part of the body shows `done`, and behind it the instructions `code` are left. -/
structure Progress (scene : Scene) (d : Decompilation) (done : List (Bool × ItemKind))
    (front raws : List ItemId) (code : List Instruction) : Prop
    extends Ahead scene d front raws code where
  shown : d.graph.shown front = done
  noRaw : ∀ entry ∈ done, isOpcodeKind entry.2 = false

namespace Progress

variable {scene : Scene} {d d' : Decompilation} {done : List (Bool × ItemKind)}
  {front : List ItemId} {code : List Instruction}

/-- Instructions of a block become a single item. -/
theorem replaced {block rest : List ItemId} {blockCode restCode : List Instruction}
    (h : Progress scene d done front (block ++ rest) (blockCode ++ restCode))
    (hblock : Raws d.graph block blockCode) {site : ItemId} {kind : ItemKind} (hsite : site ∈ block)
    (hreplaced : Graph.Replaced d.graph d'.graph site block kind) (hsetting : Setting scene d')
    (hkind : isOpcodeKind kind = false) :
    ∃ front', Progress scene d' (done ++ opened [kind]) front' rest restCode := by
  obtain ⟨hlayout, hshown, hfaces⟩ := h.layout.block hreplaced hsite (fun _ hid => hid)
    fun id hid hmem => absurd hid hmem
  have hraws : Raws d.graph rest restCode := by
    obtain ⟨block', rest', heq, hblock', hrest'⟩ := h.left.split
    have hlength : block'.length = block.length := hblock'.length.trans hblock.length.symm
    obtain ⟨-, rfl⟩ := List.append_inj heq.symm hlength
    exact hrest'
  refine ⟨_, ⟨hlayout, hsetting, hraws.congr hfaces, ?_⟩, ?_, ?_⟩
  · exact fun i hi => h.straight i (List.mem_append_right _ hi)
  · rw [hshown, h.shown]
    rfl
  · intro entry hentry
    rcases List.mem_append.1 hentry with hentry | hentry
    · exact h.noRaw entry hentry
    · simp only [opened, List.map_cons, List.map_nil, List.mem_singleton] at hentry
      rw [hentry]
      exact hkind

end Progress

/-! ## Segments -/

/-- The first instruction, if there is one, is no load. -/
def NoLoad (code : List Instruction) : Prop := code.head?.map (·.opcode) ≠ some .fetchm

/-- The analysis of `code` leaves `tokens`, whatever is in front of it, if what is behind is as it
`needs`. -/
def Becomes (needs : List Instruction → Prop) (scene : Scene) (code : List Instruction)
    (tokens : List ItemKind) : Prop :=
  ∀ (d : Decompilation) (done : List (Bool × ItemKind)) (front block rest : List ItemId)
    (restCode : List Instruction) (callees : List Nat),
    Progress scene d done front (block ++ rest) (code ++ restCode) → Raws d.graph block code →
    needs restCode →
    ∃ d' front', (block.foldlM (Pass.analyzeNext 0 scene.stop) callees : Pass (List Nat)) d =
        .ok callees d' ∧
      Progress scene d' (done ++ opened tokens) front' rest restCode

variable {scene : Scene} {needs others : List Instruction → Prop}

theorem analyzeNext_of_none {callees : List Nat} {id : ItemId} {d d' : Decompilation}
    (h : Pass.analyzeItem 0 scene.stop id d = .ok none d') :
    Pass.analyzeNext 0 scene.stop callees id d = .ok callees d' := by
  unfold Pass.analyzeNext
  rw [bind_of_ok h]
  simp

/-- What has been replaced is passed over. -/
theorem analyzeItem_gone {id : ItemId} {d : Decompilation} (h : d.graph.face? id = none) :
    Pass.analyzeItem 0 scene.stop id d = .ok none d := by
  unfold Pass.analyzeItem
  rw [bind_of_ok (get_apply d)]
  simp only [(Item.face?_eq_none.1 h).1, if_true]
  rfl

theorem foldlM_gone {block : List ItemId} {callees : List Nat} {d : Decompilation}
    (h : ∀ id ∈ block, d.graph.face? id = none) :
    (block.foldlM (Pass.analyzeNext 0 scene.stop) callees : Pass (List Nat)) d = .ok callees d := by
  induction block with
  | nil => rfl
  | cons id rest ih =>
    rw [List.foldlM_cons,
      bind_of_ok (analyzeNext_of_none (analyzeItem_gone (h id List.mem_cons_self)))]
    exact ih fun other hother => h other (List.mem_cons_of_mem _ hother)

theorem becomes_nil : Becomes needs scene [] [] := by
  intro d done front block rest restCode callees h hblock _
  obtain rfl : block = [] := List.map_eq_nil_iff.1 hblock
  exact ⟨d, front, rfl, by simpa [opened] using h⟩

theorem Becomes.append {code more : List Instruction} {tokens behind : List ItemKind}
    (h : Becomes needs scene code tokens) (h' : Becomes others scene more behind)
    (hneeds : ∀ restCode, others restCode → needs (more ++ restCode)) :
    Becomes others scene (code ++ more) (tokens ++ behind) := by
  intro d done front block rest restCode callees hprogress hblock hrest
  obtain ⟨first, second, rfl, hfirst, hsecond⟩ := hblock.split
  rw [List.append_assoc, List.append_assoc] at hprogress
  obtain ⟨d₁, front₁, hfold, hprogress₁⟩ :=
    h d done front first (second ++ rest) (more ++ restCode) callees hprogress hfirst
      (hneeds restCode hrest)
  obtain ⟨block', rest', heq, hblock', -⟩ := hprogress₁.left.split
  have hlength : block'.length = second.length := hblock'.length.trans hsecond.length.symm
  obtain ⟨rfl, rfl⟩ := List.append_inj heq hlength.symm
  obtain ⟨d₂, front₂, hfold', hprogress₂⟩ :=
    h' d₁ _ front₁ second rest restCode callees hprogress₁ hblock' hrest
  refine ⟨d₂, front₂, ?_, ?_⟩
  · rw [List.foldlM_append, bind_of_ok hfold]
    exact hfold'
  · rw [opened_append, ← List.append_assoc]
    exact hprogress₂

/-- A block becomes a single item if its first instruction does and takes the others with it. -/
theorem becomes_of_first {instruction : Instruction} {more : List Instruction} {kind : ItemKind}
    (hkind : isOpcodeKind kind = false)
    (h : ∀ (d : Decompilation) (done : List (Bool × ItemKind)) (front others rest : List ItemId)
      (id : ItemId) (restCode : List Instruction),
      Progress scene d done front (id :: (others ++ rest)) (instruction :: (more ++ restCode)) →
      Raws d.graph (id :: others) (instruction :: more) → needs restCode →
      ∃ d', Pass.analyzeItem 0 scene.stop id d = .ok none d' ∧ Setting scene d' ∧
        Graph.Replaced d.graph d'.graph id (id :: others) kind) :
    Becomes needs scene (instruction :: more) [kind] := by
  intro d done front block rest restCode callees hprogress hblock hrest
  cases block with
  | nil => simp [Raws] at hblock
  | cons id others =>
    obtain ⟨d', hitem, hsetting, hreplaced⟩ :=
      h d done front others rest id restCode hprogress hblock hrest
    obtain ⟨front', hprogress'⟩ :=
      hprogress.replaced hblock List.mem_cons_self hreplaced hsetting hkind
    refine ⟨d', front', ?_, hprogress'⟩
    rw [List.foldlM_cons, bind_of_ok (analyzeNext_of_none hitem)]
    exact foldlM_gone fun other hother => hreplaced.gone other (List.mem_cons_of_mem _ hother)

/-! ## Patterns -/

theorem exists_of_spells {g : Graph} {stop : ItemId} {pattern : List Opcode}
    {ids behind : List ItemId} (h : g.spells stop pattern (ids ++ stop :: behind) = true) :
    ∀ opcode ∈ pattern, ∃ id ∈ ids, (g.item id).isOpcode opcode = true := by
  induction pattern generalizing ids with
  | nil => simp
  | cons opcode pattern ih =>
    cases ids with
    | nil => simp [Graph.spells] at h
    | cons id ids =>
      simp only [List.cons_append, Graph.spells, Bool.and_eq_true] at h
      intro other hother
      rcases List.mem_cons.1 hother with rfl | hother
      · exact ⟨id, List.mem_cons_self, h.1.2⟩
      · obtain ⟨found, hfound, hopcode⟩ := ih h.2 other hother
        exact ⟨found, List.mem_cons_of_mem _ hfound, hopcode⟩

theorem Raws.exists_instruction {g : Graph} {ids : List ItemId} {code : List Instruction}
    (h : Raws g ids code) {id : ItemId} (hid : id ∈ ids) :
    ∃ instruction ∈ code, g.face? id = some (false, rawKind instruction) := by
  have hmem : g.face? id ∈ ids.map g.face? := List.mem_map_of_mem hid
  rw [h] at hmem
  obtain ⟨instruction, hi, heq⟩ := List.mem_map.1 hmem
  exact ⟨instruction, hi, heq.symm⟩

namespace Ahead

variable {d : Decompilation} {front raws : List ItemId} {code : List Instruction}
  {id : ItemId} {instruction : Instruction}

/-- Straight-line code has no elements of arrays. -/
theorem no_elementPattern (h : Ahead scene d front (id :: raws) code) :
    d.graph.matchesPattern id scene.stop Pass.elementPattern = false := by
  rw [Graph.matchesPattern, h.layout.startingAt, ← List.cons_append]
  by_contra hspells
  rw [Bool.not_eq_false, Bool.and_eq_true] at hspells
  obtain ⟨other, hother, hoffset⟩ := exists_of_spells hspells.2 .offset (by decide)
  obtain ⟨found, hfound, hface⟩ := h.left.exists_instruction hother
  rw [isOpcode_of_raw hface, decide_eq_true_eq] at hoffset
  have hstraight := h.straight found hfound
  rw [hoffset] at hstraight
  exact absurd hstraight (by decide)

theorem face (h : Ahead scene d front (id :: raws) (instruction :: code)) :
    d.graph.face? id = some (false, rawKind instruction) :=
  (raws_cons.1 h.left).1

theorem lt_size (h : Ahead scene d front (id :: raws) code) : id < d.graph.size :=
  h.layout.lt_size (List.mem_append_right _ List.mem_cons_self)

/-- An instruction that returns no value is analyzed by itself. -/
theorem analyzeItem (h : Ahead scene d front (id :: raws) (instruction :: code))
    (hreturn : instruction.opcode ≠ .saveReg) :
    Pass.analyzeItem 0 scene.stop id d =
      Pass.analyzeOpcode 0 scene.stop id instruction.opcode d := by
  have hpattern : d.graph.matchesPattern id scene.stop Pass.returnPattern = false := by
    simp [Graph.matchesPattern, Pass.returnPattern, isOpcode_of_raw h.face, hreturn]
  unfold Pass.analyzeItem
  rw [bind_of_ok (get_apply d)]
  simp only [processed_of_raw h.face, opcode?_of_raw h.face, h.no_elementPattern, hpattern]
  rfl

/-- An instruction by itself becomes an operation. -/
theorem replaced_operation (h : Ahead scene d front (id :: raws) (instruction :: code))
    (operation : Operation) :
    Graph.Replaced d.graph (d.graph.putOperation id operation) id [id] (.operation operation) :=
  Graph.replaced_putOperation h.layout.ordered h.lt_size (statement?_of_raw h.face) operation

end Ahead

/-! ## Operations and statements -/

/-- An operator, a load or speech becomes an operation. -/
theorem becomes_operation {instruction : Instruction} {operation : Operation}
    (hreturn : instruction.opcode ≠ .saveReg)
    (h : ∀ (id : ItemId) (d : Decompilation),
      Pass.analyzeOpcode 0 scene.stop id instruction.opcode d =
        .ok none (d.onGraph (·.putOperation id operation))) :
    Becomes needs scene [instruction] [.operation operation] := by
  refine becomes_of_first rfl ?_
  intro d done front others rest id restCode hprogress hblock _
  obtain rfl : others = [] := List.map_eq_nil_iff.1 (raws_cons.1 hblock).2
  exact ⟨_, (hprogress.analyzeItem hreturn).trans (h id d), hprogress.setting.onGraph _,
    hprogress.replaced_operation operation⟩

theorem becomes_unary (opcode : UnaryOpcode) :
    Becomes needs scene [⟨opcode, none⟩] [.operation (.simple opcode 1 true .int)] := by
  obtain ⟨opcode, hclass⟩ := opcode
  refine becomes_operation ?_ fun id d => ?_
  · rintro rfl
    cases hclass
  · cases opcode <;> first | rfl | cases hclass

theorem becomes_binary (opcode : BinaryOpcode) :
    Becomes needs scene [⟨opcode, none⟩] [.operation (.simple opcode 2 true .int)] := by
  obtain ⟨opcode, hclass⟩ := opcode
  refine becomes_operation ?_ fun id d => ?_
  · rintro rfl
    cases hclass
  · cases opcode <;> first | rfl | cases hclass

theorem becomes_fetchm :
    Becomes needs scene [⟨.fetchm, none⟩] [.operation (.simple .fetchm 1 true .int)] :=
  becomes_operation (by decide) fun _ _ => rfl

theorem becomes_sayOp :
    Becomes needs scene [⟨.sayOp, none⟩] [.operation (.simple .sayOp 1 false .void)] :=
  becomes_operation (by decide) fun _ _ => rfl

theorem becomes_exitOp : Becomes needs scene [⟨.exitOp, none⟩] [.statement (.plain "exit;")] := by
  refine becomes_of_first rfl ?_
  intro d done front others rest id restCode hprogress hblock _
  obtain rfl : others = [] := List.map_eq_nil_iff.1 (raws_cons.1 hblock).2
  exact ⟨_, hprogress.analyzeItem (by decide), hprogress.setting.onGraph _,
    Graph.replaced_replaceByStatement hprogress.layout.ordered hprogress.lt_size
      (statement?_of_raw hprogress.face) _⟩

/-! ## Pushes -/

theorem consumeLoad_none {id : ItemId} {d : Decompilation}
    (h : (d.graph.next? id).filter (fun next => (d.graph.item next).isOpenOpcode .fetchm) = none) :
    Pass.consumeLoad id d = .ok false d := by
  unfold Pass.consumeLoad
  rw [bind_of_ok (get_apply d)]
  simp only [h]
  rfl

theorem consumeLoad_some {id load : ItemId} {d : Decompilation}
    (h : (d.graph.next? id).filter (fun next => (d.graph.item next).isOpenOpcode .fetchm) =
      some load) :
    Pass.consumeLoad id d = .ok true (d.onGraph (·.markProcessed load)) := by
  unfold Pass.consumeLoad
  rw [bind_of_ok (get_apply d)]
  simp only [h]
  rfl

namespace Ahead

variable {d : Decompilation} {front raws : List ItemId} {code : List Instruction}
  {id behind : ItemId} {instruction loading : Instruction}

/-- What is behind an instruction is the next instruction or the end of the function. -/
theorem next_opcode (h : Ahead scene d front (id :: raws) (instruction :: code))
    {opcode : Opcode} (hcode : code.head?.map (·.opcode) ≠ some opcode) :
    ∃ next, d.graph.next? id = some next ∧ (d.graph.item next).isOpcode opcode = false := by
  rw [h.layout.next?]
  have hleft := (raws_cons.1 h.left).2
  cases raws with
  | nil =>
    refine ⟨scene.stop, rfl, ?_⟩
    simp [Item.isOpcode, Item.opcode?, Item.opcodeItem?, (Item.face?_eq_open.1 h.layout.stop).2]
  | cons next raws =>
    cases code with
    | nil => simp [Raws] at hleft
    | cons following code =>
      refine ⟨next, rfl, ?_⟩
      rw [isOpcode_of_raw (raws_cons.1 hleft).1]
      simpa using hcode

theorem no_load (h : Ahead scene d front (id :: raws) (instruction :: code))
    (hload : NoLoad code) :
    (d.graph.next? id).filter (fun next => (d.graph.item next).isOpenOpcode .fetchm) = none := by
  obtain ⟨next, hnext, hopcode⟩ := h.next_opcode hload
  simp [hnext, Item.isOpenOpcode, hopcode]

theorem some_load (h : Ahead scene d front (id :: behind :: raws)
      (instruction :: loading :: code)) (hload : loading.opcode = .fetchm) :
    (d.graph.next? id).filter (fun next => (d.graph.item next).isOpenOpcode .fetchm) =
      some behind := by
  rw [h.layout.next?]
  simp [isOpenOpcode_of_raw (raws_cons.1 (raws_cons.1 h.left).2).1, hload]

/-- Straight-line code has no calls of imported functions. -/
theorem isArgCount (h : Ahead scene d front (id :: raws) (instruction :: code)) :
    Pass.isArgCount d.graph id = false := by
  have hcode : code.head?.map (·.opcode) ≠ some .calli := by
    intro hcalli
    obtain ⟨following, hfollowing, hopcode⟩ := Option.map_eq_some_iff.1 hcalli
    have hstraight := h.straight following
      (List.mem_cons_of_mem _ (List.mem_of_head? hfollowing))
    rw [hopcode] at hstraight
    exact absurd hstraight (by decide)
  obtain ⟨next, hnext, hopcode⟩ := h.next_opcode hcode
  simp [Pass.isArgCount, hnext, hopcode]

/-- An instruction by itself becomes an expression. -/
theorem replaced_expression (h : Ahead scene d front (id :: raws) (instruction :: code))
    (expression : Expr) :
    Graph.Replaced d.graph (d.graph.putExpression id expression) id [id]
      (.expression expression) :=
  Graph.replaced_putExpression h.layout.ordered h.lt_size (statement?_of_raw h.face) expression

/-- An instruction becomes an expression together with the load behind it. -/
theorem replaced_loaded (h : Ahead scene d front (id :: behind :: raws)
      (instruction :: loading :: code)) (expression : Expr) :
    Graph.Replaced d.graph ((d.graph.markProcessed behind).putExpression id expression) id [id, behind]
      (.expression expression) := by
  have hload : behind < d.graph.size :=
    h.layout.lt_size (List.mem_append_right _ (List.mem_cons_of_mem _ List.mem_cons_self))
  have hne : id ≠ behind := by
    have hnodup := h.layout.nodup.2.2.2.1
    rw [List.nodup_append, List.nodup_cons] at hnodup
    exact fun he => hnodup.2.1.1 (he ▸ List.mem_cons_self)
  have hstatement : ((d.graph.markProcessed behind).item id).statement? = none := by
    rw [Graph.markProcessed, Graph.item_modify_of_ne hne]
    exact statement?_of_raw h.face
  have hsize : id < (d.graph.markProcessed behind).size := by
    rw [Graph.markProcessed, Graph.size_modify]
    exact h.lt_size
  have hput := Graph.replaced_putExpression (h.layout.ordered.markProcessed behind) hsize hstatement
    expression
  exact hput.of_marked h.lt_size hload hne
    (statement?_of_raw (raws_cons.1 (raws_cons.1 h.left).2).1) (by simp)

end Ahead

theorem analyzeOpcode_pushi {id : ItemId} {d d' : Decompilation}
    (hcount : Pass.isArgCount d.graph id = false) (h : Pass.addImmediate id d = .ok () d') :
    Pass.analyzeOpcode 0 scene.stop id .pushi d = .ok none d' := by
  simp only [Pass.analyzeOpcode]
  rw [bind_of_ok (get_apply d), hcount]
  simp only [Bool.not_false, if_true]
  rw [bind_of_ok h]
  rfl

theorem addImmediate_const {id : ItemId} {d : Decompilation}
    (h : (d.graph.next? id).filter (fun next => (d.graph.item next).isOpenOpcode .fetchm) = none) :
    Pass.addImmediate id d =
      .ok () (d.onGraph (·.putExpression id (.const (d.graph.item id).operandOrZero))) := by
  unfold Pass.addImmediate
  rw [bind_of_ok (get_apply d), bind_of_ok (consumeLoad_none h)]
  rfl

theorem addImmediate_global {id load : ItemId} {d : Decompilation}
    (h : (d.graph.next? id).filter (fun next => (d.graph.item next).isOpenOpcode .fetchm) =
      some load) :
    Pass.addImmediate id d =
      .ok () (d.onGraph fun g => (g.markProcessed load).putExpression id
        (.atom (d.globalName (d.graph.item id).operandOrZero) false)) := by
  unfold Pass.addImmediate
  rw [bind_of_ok (get_apply d), bind_of_ok (consumeLoad_some h)]
  rfl

theorem analyzeOpcode_pushiEff {id : ItemId} {d d' : Decompilation}
    (h : Pass.addVariable 0 id d = .ok () d') :
    Pass.analyzeOpcode 0 scene.stop id .pushiEff d = .ok none d' := by
  simp only [Pass.analyzeOpcode]
  rw [bind_of_ok h]
  rfl

/-- The address of a local variable, or its value if a load is behind. -/
theorem addVariable_local {id : ItemId} {d d₁ : Decompilation} {loaded : Bool}
    (hoffset : Pass.isParamOffset (d.graph.item id).operandOrZero = false)
    (h : Pass.consumeLoad id d = .ok loaded d₁) :
    Pass.addVariable 0 id d =
      .ok () ((d₁.onVariables 0 (·.useLocal (d.graph.item id).operandOrZero)).onGraph
        (·.putExpression id (.atom (Pass.localName (d.graph.item id).operandOrZero) (!loaded)))) := by
  unfold Pass.addVariable
  rw [bind_of_ok (get_apply d), bind_of_ok h]
  simp only [hoffset]
  rfl

theorem addVariable_param {id : ItemId} {d d₁ : Decompilation} {loaded : Bool}
    (hoffset : Pass.isParamOffset (d.graph.item id).operandOrZero = true)
    (h : Pass.consumeLoad id d = .ok loaded d₁) :
    Pass.addVariable 0 id d =
      .ok () ((d₁.onVariables 0
        (·.useParam (Pass.paramNumber (d.graph.item id).operandOrZero))).onGraph
        (·.putExpression id
          (.atom ("param" ++ Text.decimal (Pass.paramNumber (d.graph.item id).operandOrZero))
            true))) := by
  unfold Pass.addVariable
  rw [bind_of_ok (get_apply d), bind_of_ok h]
  simp only [hoffset]
  rfl

theorem becomes_const (value : UInt16) :
    Becomes NoLoad scene [⟨.pushi, some value⟩] [.expression (.const value)] := by
  refine becomes_of_first rfl ?_
  intro d done front others rest id restCode hprogress hblock hrest
  obtain rfl : others = [] := List.map_eq_nil_iff.1 (raws_cons.1 hblock).2
  have himmediate := addImmediate_const (hprogress.no_load hrest)
  rw [operandOrZero_of_raw hprogress.face] at himmediate
  exact ⟨_, (hprogress.analyzeItem nofun).trans
    (analyzeOpcode_pushi hprogress.isArgCount himmediate), hprogress.setting.onGraph _,
    hprogress.replaced_expression _⟩

theorem becomes_global (slot : UInt16) :
    Becomes needs scene [⟨.pushi, some slot⟩, ⟨.fetchm, none⟩]
      [.expression (.atom (scene.names.global slot) false)] := by
  refine becomes_of_first rfl ?_
  intro d done front others rest id restCode hprogress hblock hrest
  obtain ⟨load, rfl⟩ : ∃ load, others = [load] := List.length_eq_one_iff.1
    (raws_cons.1 hblock).2.length
  have himmediate := addImmediate_global (hprogress.some_load rfl)
  rw [operandOrZero_of_raw hprogress.face, hprogress.setting.globalName] at himmediate
  exact ⟨_, (hprogress.analyzeItem nofun).trans
    (analyzeOpcode_pushi hprogress.isArgCount himmediate), hprogress.setting.onGraph _,
    hprogress.replaced_loaded _⟩

/-- A change of the variables alone keeps the setting. -/
theorem setting_onVariables {d : Decompilation} (h : Setting scene d) (f : Variables → Variables) :
    Setting scene (d.onVariables 0 f) := by
  refine h.onFunction ?_
  exact fun _ => ⟨rfl, rfl, rfl⟩

theorem not_isParamOffset (index : LocalIndex) : Pass.isParamOffset index = false := by
  have h := index.2
  rw [UInt16.le_iff_toNat_le] at h
  simp only [Pass.isParamOffset, gt_iff_lt, UInt16.lt_iff_toNat_lt, decide_eq_false_iff_not]
  omega

theorem isParamOffset (offset : ParamOffset) : Pass.isParamOffset offset = true :=
  decide_eq_true offset.2

theorem becomes_local_address (index : LocalIndex) :
    Becomes NoLoad scene [⟨.pushiEff, some index⟩]
      [.expression (.atom (Pass.localName index) true)] := by
  refine becomes_of_first rfl ?_
  intro d done front others rest id restCode hprogress hblock hrest
  obtain rfl : others = [] := List.map_eq_nil_iff.1 (raws_cons.1 hblock).2
  have hoperand : (d.graph.item id).operandOrZero = index := operandOrZero_of_raw hprogress.face
  have hvariable := addVariable_local (by rw [hoperand]; exact not_isParamOffset index)
    (consumeLoad_none (hprogress.no_load hrest))
  rw [hoperand] at hvariable
  exact ⟨_, (hprogress.analyzeItem nofun).trans (analyzeOpcode_pushiEff hvariable),
    (setting_onVariables hprogress.setting _).onGraph _, hprogress.replaced_expression _⟩

theorem becomes_local (index : LocalIndex) :
    Becomes needs scene [⟨.pushiEff, some index⟩, ⟨.fetchm, none⟩]
      [.expression (.atom (Pass.localName index) false)] := by
  refine becomes_of_first rfl ?_
  intro d done front others rest id restCode hprogress hblock hrest
  obtain ⟨load, rfl⟩ : ∃ load, others = [load] := List.length_eq_one_iff.1
    (raws_cons.1 hblock).2.length
  have hoperand : (d.graph.item id).operandOrZero = index := operandOrZero_of_raw hprogress.face
  have hvariable := addVariable_local (by rw [hoperand]; exact not_isParamOffset index)
    (consumeLoad_some (hprogress.some_load rfl))
  rw [hoperand] at hvariable
  exact ⟨_, (hprogress.analyzeItem nofun).trans (analyzeOpcode_pushiEff hvariable),
    (setting_onVariables (hprogress.setting.onGraph _) _).onGraph _, hprogress.replaced_loaded _⟩

theorem becomes_param_address (offset : ParamOffset) :
    Becomes needs scene [⟨.pushiEff, some offset⟩, ⟨.fetchm, none⟩]
      [.expression (.atom ("param" ++ Text.decimal (Pass.paramNumber offset)) true)] := by
  refine becomes_of_first rfl ?_
  intro d done front others rest id restCode hprogress hblock hrest
  obtain ⟨load, rfl⟩ : ∃ load, others = [load] := List.length_eq_one_iff.1
    (raws_cons.1 hblock).2.length
  have hoperand : (d.graph.item id).operandOrZero = offset := operandOrZero_of_raw hprogress.face
  have hvariable := addVariable_param (by rw [hoperand]; exact isParamOffset offset)
    (consumeLoad_some (hprogress.some_load rfl))
  rw [hoperand] at hvariable
  exact ⟨_, (hprogress.analyzeItem nofun).trans (analyzeOpcode_pushiEff hvariable),
    (setting_onVariables (hprogress.setting.onGraph _) _).onGraph _, hprogress.replaced_loaded _⟩

/-! ## Stores and returns -/

/-- An instruction passed over is in front of those that are left. -/
theorem Ahead.pass {d : Decompilation} {front raws : List ItemId} {code : List Instruction}
    {id : ItemId} {instruction : Instruction}
    (h : Ahead scene d front (id :: raws) (instruction :: code)) :
    Ahead scene d (front ++ [id]) raws code := by
  refine ⟨?_, h.setting, (raws_cons.1 h.left).2, fun i hi => h.straight i (List.mem_cons_of_mem _ hi)⟩
  rw [List.append_assoc]
  exact h.layout

theorem addStore_plain {id : ItemId} {d : Decompilation}
    (h : (d.graph.prev? id).filter (fun prev => (d.graph.item prev).isOpenOpcode .swap) = none) :
    Pass.addStore id d = .ok () (d.onGraph (·.putOperation id (storeOperation false))) := by
  unfold Pass.addStore
  rw [bind_of_ok (get_apply d)]
  simp only [h]
  rfl

theorem addStore_swapped {id swap : ItemId} {d : Decompilation}
    (h : (d.graph.prev? id).filter (fun prev => (d.graph.item prev).isOpenOpcode .swap) =
      some swap) :
    Pass.addStore id d =
      .ok () (d.onGraph fun g => (g.markProcessed swap).putOperation id (storeOperation true)) := by
  unfold Pass.addStore
  rw [bind_of_ok (get_apply d)]
  simp only [h]
  rfl

theorem analyzeOpcode_sto {id : ItemId} {d d' : Decompilation} (h : Pass.addStore id d = .ok () d') :
    Pass.analyzeOpcode 0 scene.stop id .sto d = .ok none d' := by
  simp only [Pass.analyzeOpcode]
  rw [bind_of_ok h]
  rfl

/-- No swap stands before an instruction when those in front of it are done. -/
theorem Progress.no_swap {d : Decompilation} {done : List (Bool × ItemKind)}
    {front raws : List ItemId} {code : List Instruction} {id : ItemId}
    (h : Progress scene d done front (id :: raws) code) :
    (d.graph.prev? id).filter (fun prev => (d.graph.item prev).isOpenOpcode .swap) = none := by
  rw [h.layout.prev?, Option.filter_eq_none_iff]
  intro prev hprev hswap
  have hopen : (d.graph.item prev).processed = false ∧
      (d.graph.item prev).opcode? = some .swap := by
    simpa [Item.isOpenOpcode, Item.isOpcode] using hswap
  have hkind : isOpcodeKind (d.graph.item prev).kind = true := by
    obtain ⟨op, hop, -⟩ := Option.bind_eq_some_iff.1 hopen.2
    unfold Item.opcodeItem? at hop
    split at hop
    · rename_i heq
      rw [heq]
      rfl
    · cases hop
  have hface : d.graph.face? prev = some (false, (d.graph.item prev).kind) :=
    Item.face?_of_open hopen.1
  rcases List.mem_cons.1 (List.mem_of_getLast? hprev) with rfl | hmem
  · rw [(Item.face?_eq_open.1 h.layout.start).2] at hkind
    cases hkind
  · have hentry : (false, (d.graph.item prev).kind) ∈ done := by
      rw [← h.shown]
      exact List.mem_filterMap.2 ⟨prev, hmem, hface⟩
    have hno := h.noRaw _ hentry
    rw [hkind] at hno
    cases hno

theorem becomes_store : Becomes needs scene [⟨.sto, none⟩] [.operation (storeOperation false)] := by
  refine becomes_of_first rfl ?_
  intro d done front others rest id restCode hprogress hblock _
  obtain rfl : others = [] := List.map_eq_nil_iff.1 (raws_cons.1 hblock).2
  exact ⟨_, (hprogress.analyzeItem nofun).trans
    (analyzeOpcode_sto (addStore_plain hprogress.no_swap)), hprogress.setting.onGraph _,
    hprogress.replaced_operation _⟩

/-- A swap and the store behind it become one operation. -/
theorem becomes_swapped_store :
    Becomes needs scene [⟨.swap, none⟩, ⟨.sto, none⟩] [.operation (storeOperation true)] := by
  intro d done front block rest restCode callees hprogress hblock _
  obtain ⟨swap, id, rfl⟩ : ∃ swap id, block = [swap, id] := List.length_eq_two.1 hblock.length
  have hpassed := Ahead.pass hprogress.toAhead
  have hswap := (raws_cons.1 hblock).1
  have hid := (raws_cons.1 (raws_cons.1 hblock).2).1
  have hlt : swap < d.graph.size :=
    hprogress.layout.lt_size (List.mem_append_right _ List.mem_cons_self)
  have hne : id ≠ swap := by
    have hnodup := hprogress.layout.nodup.2.2.2.1
    rw [List.nodup_append, List.cons_append, List.nodup_cons] at hnodup
    exact fun he => hnodup.2.1.1 (he ▸ List.mem_cons_self)
  -- The swap is passed over, and taken by the store.
  have hfirst : Pass.analyzeItem 0 scene.stop swap d = .ok none d :=
    hprogress.analyzeItem nofun
  have hprev : (d.graph.prev? id).filter
      (fun prev => (d.graph.item prev).isOpenOpcode .swap) = some swap := by
    rw [hpassed.layout.prev?, List.getLast?_cons, List.getLast?_append]
    simp [isOpenOpcode_of_raw hswap]
  have hsecond := (hpassed.analyzeItem nofun).trans (analyzeOpcode_sto (addStore_swapped hprev))
  have hstatement : ((d.graph.markProcessed swap).item id).statement? = none := by
    rw [Graph.markProcessed, Graph.item_modify_of_ne hne]
    exact statement?_of_raw hid
  have hsize : id < (d.graph.markProcessed swap).size := by
    rw [Graph.markProcessed, Graph.size_modify]
    exact hpassed.lt_size
  have hput := Graph.replaced_putOperation (hprogress.layout.ordered.markProcessed swap) hsize
    hstatement (storeOperation true)
  have hreplaced : Graph.Replaced d.graph
      ((d.graph.markProcessed swap).putOperation id (storeOperation true)) id [swap, id]
      (.operation (storeOperation true)) :=
    hput.of_marked hpassed.lt_size hlt hne (statement?_of_raw hswap) (by simp [or_comm])
  have hsetting : Setting scene
      (d.onGraph fun g => (g.markProcessed swap).putOperation id (storeOperation true)) :=
    hprogress.setting.onGraph _
  obtain ⟨front', hprogress'⟩ := hprogress.replaced hblock
    (List.mem_cons_of_mem _ List.mem_cons_self) hreplaced hsetting rfl
  refine ⟨_, front', ?_, hprogress'⟩
  rw [List.foldlM_cons, bind_of_ok (analyzeNext_of_none hfirst), List.foldlM_cons,
    bind_of_ok (analyzeNext_of_none hsecond)]
  rfl

/-- The two instructions of a return are marked behind its operation. -/
theorem markOpcodes_return {d : Decompilation} {front rest : List ItemId} {id pop : ItemId}
    {restCode : List Instruction} {first second : Instruction}
    (h : Ahead scene d front (id :: pop :: rest) (first :: second :: restCode))
    (operation : Operation) :
    (d.graph.putOperation id operation).markOpcodes id Pass.returnPattern.length =
      (d.graph.putOperation id operation).modifyAll [id, pop] Item.markProcessed := by
  have hpop := (raws_cons.1 (raws_cons.1 h.left).2).1
  have hlt : pop < d.graph.size :=
    h.layout.lt_size (List.mem_append_right _ (List.mem_cons_of_mem _ List.mem_cons_self))
  have hlayout := h.layout.replaced (h.replaced_operation operation)
    (List.mem_append_right _ List.mem_cons_self) fun other hother => List.mem_append_right _ (by
      rw [List.mem_singleton.1 hother]
      exact List.mem_cons_self)
  have hnot : id ∉ front := by
    have hnodup := h.layout.nodup.2.2.2.1
    rw [List.nodup_append] at hnodup
    exact fun hmem => hnodup.2.2 id hmem id List.mem_cons_self rfl
  rw [Graph.placeBefore_split hnot, List.append_cons] at hlayout
  have hfirst : ((d.graph.putOperation id operation).item id).isOpcodeItem = true := by
    rw [Graph.putOperation_keeps (p := Item.isOpcodeItem) (fun _ => rfl) h.lt_size, Item.isOpcodeItem,
      opcodeItem?_of_raw h.face]
    rfl
  have hsecond : ((d.graph.putOperation id operation).item pop).isOpcodeItem = true := by
    rw [Graph.putOperation_keeps (p := Item.isOpcodeItem) (fun _ => rfl) hlt, Item.isOpcodeItem,
      opcodeItem?_of_raw hpop]
    rfl
  rw [Graph.markOpcodes, hlayout.startingAt]
  simp [hfirst, hsecond, Pass.returnPattern]

theorem analyzeItem_return {d : Decompilation} {front rest : List ItemId} {id pop : ItemId}
    {restCode : List Instruction}
    (h : Ahead scene d front (id :: pop :: rest) (⟨.saveReg, none⟩ :: ⟨.pop, none⟩ :: restCode)) :
    Pass.analyzeItem 0 scene.stop id d =
      .ok none ((d.onGraph fun g => (g.putOperation id (.simple .saveReg 1 false .void)).markOpcodes id
        Pass.returnPattern.length).onFunction 0 fun info => { info with returnType := .int }) := by
  have hpop := (raws_cons.1 (raws_cons.1 h.left).2).1
  obtain ⟨-, -, -, -, hstop, -⟩ := h.layout.nodup
  have hpattern : d.graph.matchesPattern id scene.stop Pass.returnPattern = true := by
    have hid : id ≠ scene.stop := fun he => hstop (he ▸ List.mem_append_right _ List.mem_cons_self)
    have hne : pop ≠ scene.stop := fun he =>
      hstop (he ▸ List.mem_append_right _ (List.mem_cons_of_mem _ List.mem_cons_self))
    rw [Graph.matchesPattern, h.layout.startingAt]
    simp [Pass.returnPattern, Graph.spells, isOpcode_of_raw h.face, isOpcode_of_raw hpop, hid, hne]
  unfold Pass.analyzeItem
  rw [bind_of_ok (get_apply d)]
  simp only [processed_of_raw h.face, opcode?_of_raw h.face, h.no_elementPattern, hpattern]
  rfl

/-- The return of a value becomes one operation. -/
theorem becomes_return :
    Becomes needs scene [⟨.saveReg, none⟩, ⟨.pop, none⟩]
      [.operation (.simple .saveReg 1 false .void)] := by
  refine becomes_of_first rfl ?_
  intro d done front others rest id restCode hprogress hblock _
  obtain ⟨pop, rfl⟩ : ∃ pop, others = [pop] := List.length_eq_one_iff.1
    (raws_cons.1 hblock).2.length
  have hpop := (raws_cons.1 (raws_cons.1 hblock).2).1
  have hlt : pop < d.graph.size :=
    hprogress.layout.lt_size (List.mem_append_right _ (List.mem_cons_of_mem _ List.mem_cons_self))
  refine ⟨_, analyzeItem_return hprogress.toAhead, ?_, ?_⟩
  · refine (hprogress.setting.onGraph _).onFunction ?_
    exact fun _ => ⟨rfl, rfl, rfl⟩
  · have hput := hprogress.replaced_operation (.simple .saveReg 1 false .void)
    have hmarks := Graph.sameBut_markAll [id, pop]
      (d.graph.putOperation id (.simple .saveReg 1 false .void))
    change Graph.Replaced d.graph ((d.graph.putOperation id _).markOpcodes id _) _ _ _
    rw [markOpcodes_return hprogress.toAhead]
    refine hput.widen (Graph.SameBut.refl _ _) hmarks (by simp) ?_ ?_
    · simp only [List.mem_cons, List.not_mem_nil, or_false, not_or]
      exact ⟨(Nat.ne_of_lt hprogress.lt_size).symm, (Nat.ne_of_lt hlt).symm⟩
    · intro other hother
      have hsize : other < d.graph.size := by
        rcases List.mem_cons.1 hother with rfl | hother
        · exact hprogress.lt_size
        · rw [List.mem_singleton.1 hother]
          exact hlt
      refine Graph.face?_modifyAll_markProcessed hother ?_ ?_
      · rw [Graph.size_putOperation]
        exact Nat.lt_succ_of_lt hsize
      · rw [Graph.putOperation_keeps (p := Item.statement?) (fun _ => rfl) hsize]
        rcases List.mem_cons.1 hother with rfl | hother
        · exact statement?_of_raw hprogress.face
        · rw [List.mem_singleton.1 hother]
          exact statement?_of_raw hpop

/-! ## Trees and statements -/

theorem noLoad_cons {opcode : Opcode} {operand : Option UInt16} (h : opcode ≠ .fetchm)
    (code : List Instruction) : NoLoad (⟨opcode, operand⟩ :: code) := by
  simpa [NoLoad] using h

theorem noLoad_tree (tree : Tree) (code : List Instruction) : NoLoad (tree.code ++ code) := by
  obtain ⟨opcode, operand, rest, h, hopcode⟩ := tree.exists_code_cons
  rw [h]
  refine noLoad_cons ?_ _
  rcases hopcode with rfl | rfl <;> decide

/-- The code of a tree becomes its expressions and operations. -/
theorem becomes_tree (tree : Tree) : Becomes NoLoad scene tree.code (tree.tokens scene.names) := by
  induction tree with
  | const value => exact becomes_const value
  | localVar index => exact becomes_local index
  | param offset =>
    have haddress : Becomes (fun _ => True) scene _ _ := becomes_param_address offset
    exact haddress.append becomes_fetchm fun _ _ => trivial
  | global slot => exact becomes_global slot
  | unary opcode operand ih =>
    refine ih.append (becomes_unary opcode) fun _ _ => noLoad_cons ?_ _
    intro heq
    have hclass := opcode.2
    rw [show opcode.1 = .fetchm from heq] at hclass
    cases hclass
  | binary opcode left right ihLeft ihRight =>
    refine ihLeft.append (ihRight.append (becomes_binary opcode) fun _ _ => noLoad_cons ?_ _) ?_
    · intro heq
      have hclass := opcode.2
      rw [show opcode.1 = .fetchm from heq] at hclass
      cases hclass
    · intro restCode _
      rw [List.append_assoc]
      exact noLoad_tree right _

theorem becomes_push (place : Place) :
    Becomes NoLoad scene [place.push] [.expression place.pushed] := by
  cases place with
  | localVar index => exact becomes_local_address index
  | global slot => exact becomes_const slot

/-- The code of a statement becomes the expressions and operations of its trees and its own
operation. -/
theorem becomes_stmt (stmt : Stmt) : Becomes NoLoad scene stmt.code (stmt.tokens scene.names) := by
  cases stmt with
  | assign place value valueFirst =>
    cases valueFirst with
    | false =>
      refine (becomes_push place).append ((becomes_tree value).append becomes_store
        fun _ _ => noLoad_cons (by decide) _) fun restCode _ => ?_
      change NoLoad ((value.code ++ [_]) ++ restCode)
      rw [List.append_assoc]
      exact noLoad_tree value _
    | true =>
      refine (becomes_tree value).append ((becomes_push place).append becomes_swapped_store
        fun _ _ => noLoad_cons (by decide) _) fun _ _ => ?_
      cases place <;> exact noLoad_cons (by decide) _
  | say id => exact (becomes_const id).append becomes_sayOp fun _ _ => noLoad_cons (by decide) _
  | «return» value =>
    exact (becomes_tree value).append becomes_return fun _ _ => noLoad_cons (by decide) _
  | exit => exact becomes_exitOp

theorem noLoad_stmt (stmt : Stmt) (code : List Instruction) : NoLoad (stmt.code ++ code) := by
  cases stmt with
  | assign place value valueFirst =>
    cases valueFirst with
    | false => cases place <;> exact noLoad_cons (by decide) _
    | true =>
      rw [Stmt.code, List.append_assoc]
      exact noLoad_tree value _
  | say id => exact noLoad_cons (by decide) _
  | «return» value =>
    rw [Stmt.code, List.append_assoc]
    exact noLoad_tree value _
  | exit => exact noLoad_cons (by decide) _

theorem becomes_body (body : List Stmt) :
    Becomes NoLoad scene (bodyCode body) (bodyTokens scene.names body) := by
  induction body with
  | nil => exact becomes_nil
  | cons stmt rest ih =>
    refine (becomes_stmt stmt).append ih fun restCode hrest => ?_
    cases rest with
    | nil => exact hrest
    | cons next others =>
      change NoLoad ((next.code ++ bodyCode others) ++ restCode)
      rw [List.append_assoc]
      exact noLoad_stmt next _

/-- Analysis leaves the expressions and operations of the statements. -/
theorem analyze_straight {d : Decompilation} {front raws : List ItemId} {body : List Stmt}
    (h : Progress scene d [] front raws (bodyCode body))
    (hgone : ∀ id ∈ front, d.graph.face? id = none) :
    ∃ d' ids, Pass.analyze 0 d = .ok [] d' ∧ Layout scene d'.graph ids ∧ Setting scene d' ∧
      d'.graph.shown ids = opened (bodyTokens scene.names body) := by
  have hprogress : Progress scene d [] front (raws ++ []) (bodyCode body ++ []) := by
    rw [List.append_nil, List.append_nil]
    exact h
  obtain ⟨d', ids, hfold, hprogress'⟩ :=
    becomes_body body d [] front raws [] [] [] hprogress h.left nofun
  refine ⟨d', ids, ?_, ?_, hprogress'.setting, hprogress'.shown⟩
  · unfold Pass.analyze
    rw [bind_of_ok (get_apply d), h.setting.body h.layout, h.setting.bounds, List.foldlM_append,
      bind_of_ok (foldlM_gone hgone)]
    exact hfold
  · have hlayout := hprogress'.layout
    rwa [List.append_nil] at hlayout

end Parley.Source
