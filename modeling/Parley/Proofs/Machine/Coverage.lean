import Parley.Proofs.Machine.Step
import Parley.Proofs.Listing.Sweep
import Parley.Proofs.Decompile.CrossReference
set_option autoImplicit false

/-!
# Disassembly foresees execution

The machine, the decoder and the graph of a code segment each work out for themselves how long an
instruction is and where it leads.  They agree: as long as returns go back to calls, the machine visits
items of the graph only, goes where disassembly says that an instruction leads, and otherwise to the next
item.  At the end of the code it faults.
-/

namespace Parley

/-! ## Instructions as machine and decoder read them -/

namespace Machine

/-- What the machine fetches is what the decoder reads, and all of it lies in the code. -/
theorem fetch_eq_ok {code : CodeWords} {pos operand : UInt16} {opcode : Opcode}
    (h : fetch code pos = .ok (opcode, operand)) :
    ∃ instruction, Instruction.decode code pos = .ok instruction ∧ instruction.opcode = opcode ∧
      (opcode.takesOperand = true → instruction.operand = some operand) ∧
      pos.toNat + instruction.length ≤ code.size := by
  unfold fetch at h
  unfold Instruction.decode
  cases hword : code[pos.toNat]? with
  | none =>
    simp only [hword] at h
    cases h
  | some word =>
    have hpos : pos.toNat < code.size := (Array.getElem?_eq_some_iff.1 hword).1
    simp only [hword] at h
    cases hfound : Opcode.ofWord? word with
    | none =>
      simp only [hfound] at h
      cases h
    | some found =>
      simp only [hfound] at h ⊢
      by_cases htakes : found.takesOperand = true
      · rw [if_pos htakes] at h ⊢
        cases hoperand : code[pos.toNat + 1]? with
        | none =>
          simp only [hoperand] at h
          cases h
        | some word =>
          simp only [hoperand] at h
          cases h
          have hbehind : pos.toNat + 1 < code.size := (Array.getElem?_eq_some_iff.1 hoperand).1
          refine ⟨_, rfl, rfl, fun _ => rfl, ?_⟩
          simp only [Instruction.length, Opcode.operandCount, htakes, if_true]
          omega
      · rw [if_neg htakes] at h ⊢
        cases h
        refine ⟨_, rfl, rfl, fun htakes' => absurd htakes' htakes, ?_⟩
        simp only [Instruction.length, Opcode.operandCount, htakes]
        exact hpos

end Machine

namespace Graph

theorem decodeItem_of_ok {code : CodeWords} {pos : UInt16} {instruction : Instruction}
    (h : Instruction.decode code pos = .ok instruction) :
    decodeItem code pos = (some instruction.opcode, instruction.operand) := by
  rw [decodeItem, h]

theorem isSome_operand_of_decode {code : CodeWords} {pos : UInt16} {instruction : Instruction}
    (h : Instruction.decode code pos = .ok instruction) :
    instruction.operand.isSome = instruction.opcode.takesOperand := by
  unfold Instruction.decode at h
  split at h
  · cases h
  · split at h
    · cases h
    · split at h
      · rename_i htakes
        split at h
        · cases h
        · cases h
          rw [htakes]
          rfl
      · rename_i htakes
        cases h
        simpa using htakes

/-- The item of an instruction takes as many words as the instruction. -/
theorem strideAt_of_decode {code : CodeWords} {start : Nat} {instruction : Instruction}
    (h : Instruction.decode code (UInt16.ofNat start) = .ok instruction) :
    strideAt code start = instruction.length := by
  rw [strideAt, decodeItem_of_ok h, isSome_operand_of_decode h, Instruction.length,
    Opcode.operandCount]
  split <;> rfl

/-- An item of the graph of a code segment stands at a position, or the position lies outside. -/
def Boundary (code : CodeWords) (pos : UInt16) : Prop :=
  ((ofCode code).findPos? pos).isSome ∨ code.size ≤ pos.toNat

theorem boundary_zero (code : CodeWords) : Boundary code 0 := by
  by_cases h : 0 < code.size
  · exact Or.inl (isSome_findPos?_ofCode (List.mem_of_head? (head?_starts h)))
  · exact Or.inr (Nat.le_of_not_lt h)

/-- The position behind an instruction is the next item's, or the end of the code behind the last item. -/
theorem behind_instruction {code : CodeWords} (hsize : code.size ≤ 65535) {pos : UInt16} {id : ItemId}
    {instruction : Instruction} (hfind : (ofCode code).findPos? pos = some id)
    (hdecode : Instruction.decode code pos = .ok instruction)
    (hend : pos.toNat + instruction.length ≤ code.size) :
    let behind := pos + 1 + UInt16.ofNat instruction.opcode.operandCount
    (∃ next, (ofCode code).next? id = some next ∧ ((ofCode code).item next).pos = behind ∧
        ((ofCode code).findPos? behind).isSome) ∨
      ((ofCode code).next? id = none ∧ behind.toNat = code.size) := by
  intro behind
  have hcount : instruction.opcode.operandCount ≤ 1 := by
    unfold Opcode.operandCount
    split <;> omega
  have hbehind : behind.toNat = pos.toNat + instruction.length := by
    have hlength : instruction.length = 1 + instruction.opcode.operandCount := rfl
    have hword : (UInt16.ofNat instruction.opcode.operandCount).toNat =
        instruction.opcode.operandCount := UInt16.toNat_ofNat_of_lt (Nat.lt_of_le_of_lt hcount (by decide))
    simp only [behind, UInt16.toNat_add, hword]
    have hone : (1 : UInt16).toNat = 1 := rfl
    omega
  have hstart := getElem?_starts_of_findPos? hfind
  have hstride : strideAt code pos.toNat = instruction.length :=
    strideAt_of_decode (by rwa [UInt16.ofNat_toNat])
  have hnext := next?_ofCode hstart
  rw [hstride, ← hbehind] at hnext
  have hswept : sweptWords code = code.size :=
    Nat.min_eq_left (Nat.le_trans hsize (by decide))
  rw [hswept] at hnext
  split at hnext
  · refine Or.inl ⟨id + 1, hnext.2, ?_, ?_⟩
    · rw [item_ofCode hnext.1, pos_itemAt, UInt16.ofNat_toNat]
    · have hmem : behind.toNat ∈ starts code := List.mem_of_getElem? hnext.1
      simpa using isSome_findPos?_ofCode hmem
  · exact Or.inr ⟨hnext, by omega⟩

theorem Ordered.pos_of_findPos? {g : Graph} (hg : g.Ordered) {pos : UInt16} {id : ItemId}
    (h : g.findPos? pos = some id) : (g.item id).pos = pos := by
  rw [hg.findPos] at h
  simpa using List.find?_some h

theorem Ordered.mem_of_findPos? {g : Graph} (hg : g.Ordered) {pos : UInt16} {id : ItemId}
    (h : g.findPos? pos = some id) : id ∈ g.order := by
  rw [hg.findPos] at h
  exact List.mem_of_find?_eq_some h

end Graph

namespace Machine

open Fallible

variable {σ : Type}

/-! ## Runs -/

/-- The value on top of the stack. -/
def top? (m : Machine) : Option UInt16 :=
  match m.stack.pop with
  | .ok (value, _) => some value
  | .error _ => none

/-- Whether the machine jumps when it carries out an opcode: a conditional branch does if the value on top
of the stack says so. -/
def jumps (m : Machine) : Opcode → Bool
  | .jmp | .bra | .call => true
  | .beq => m.top? = some 0
  | .bne => m.top?.any (· ≠ 0)
  | _ => false

/-- The return address that the next instruction pushes if it is a call. -/
def returnAddress? (m : Machine) : Option UInt16 :=
  match fetch m.image.code m.ip with
  | .ok (.call, _) => some (m.ip + 1)
  | _ => none

/-- If the next instruction returns to a caller, it returns to one of `callers`. -/
def ReturnsTo (callers : List UInt16) (m : Machine) : Prop :=
  ∀ operand, fetch m.image.code m.ip = .ok (.ret, operand) → 2 ≤ m.depth →
    ∀ caller, m.top? = some caller → caller ∈ callers

/-- The runs of a conversation in which returns go back to calls.  The list holds the return addresses
that the calls made so far have pushed. -/
inductive Run (host : Host σ) (begin : Conversation σ) : List UInt16 → Conversation σ → Prop
  | begin : Run host begin [] begin
  | step {callers : List UInt16} {c c' : Conversation σ} (run : Run host begin callers c)
      (returns : ReturnsTo callers c.machine) (continues : Machine.step host c = .ok .continue c') :
      Run host begin (c.machine.returnAddress?.toList ++ callers) c'

/-! ## Where instructions lead -/

/-- An instruction jumps to its target, leads on, returns to a caller or ends the conversation. -/
theorem perform_flow {host : Host σ} {pos operand : UInt16} {opcode : Opcode}
    {c c' : Conversation σ} {flow : Flow} (h : perform host pos opcode operand c = .ok flow c') :
    (∃ target, jumps c.machine opcode = true ∧ opcode.takesOperand = true ∧
        (Instruction.mk opcode (some operand)).jumpTarget? pos = some target ∧
        flow = .goto target) ∨
      (jumps c.machine opcode = false ∧ opcode ≠ .ret ∧ flow = .next) ∨
      (opcode = .ret ∧ 2 ≤ c.machine.depth ∧
        ∃ caller, c.machine.top? = some caller ∧ flow = .goto (caller + 1)) ∨
      ∃ reason, flow = .finish reason := by
  by_cases hon : leadsOn opcode = true
  · refine Or.inr (Or.inl ⟨?_, ?_, perform_leadsOn hon c flow c' h⟩)
    · cases opcode <;> first | rfl | exact absurd hon (by decide)
    · rintro rfl
      exact absurd hon (by decide)
  · cases opcode
    case jmp =>
      exact Or.inl ⟨operand, rfl, rfl, rfl, (pure_eq_ok.1 h).1.symm⟩
    case bra =>
      exact Or.inl ⟨branchTarget pos operand, rfl, rfl, rfl, (pure_eq_ok.1 h).1.symm⟩
    case call =>
      exact Or.inl ⟨operand, rfl, rfl, rfl, perform_call c flow c' h⟩
    case beq =>
      obtain ⟨value, stack, hpop, rfl⟩ := perform_beq h
      have htop : c.machine.top? = some value := by rw [top?, hpop]
      by_cases hzero : value = 0
      · refine Or.inl ⟨branchTarget pos operand, ?_, rfl, rfl, by rw [if_pos hzero]⟩
        simp [jumps, htop, hzero]
      · refine Or.inr (Or.inl ⟨?_, by decide, by rw [if_neg hzero]⟩)
        simp [jumps, htop, hzero]
    case bne =>
      obtain ⟨value, stack, hpop, rfl⟩ := perform_bne h
      have htop : c.machine.top? = some value := by rw [top?, hpop]
      by_cases hzero : value = 0
      · refine Or.inr (Or.inl ⟨?_, by decide, by rw [if_pos hzero]⟩)
        simp [jumps, htop, hzero]
      · refine Or.inl ⟨branchTarget pos operand, ?_, rfl, rfl, by rw [if_neg hzero]⟩
        simp [jumps, htop, hzero]
    case ret =>
      rcases perform_ret h with ⟨-, rfl⟩ | ⟨hdepth, caller, stack, hpop, rfl⟩
      · exact Or.inr (Or.inr (Or.inr ⟨.return, rfl⟩))
      · have htop : c.machine.top? = some caller := by rw [top?, hpop]
        exact Or.inr (Or.inr (Or.inl ⟨rfl, hdepth, caller, htop, rfl⟩))
    case exitOp =>
      exact Or.inr (Or.inr (Or.inr ⟨.exit, (pure_eq_ok.1 h).1.symm⟩))
    all_goals exact absurd rfl hon

/-! ## What a listing foresees -/

/-- A graph is what disassembly makes of a code segment. -/
structure Disassembled (code : CodeWords) (g : Graph) : Prop where
  view : g.codeView = (Graph.ofCode code).codeView
  known : ∀ id, id < g.size → g.TargetKnown id

theorem disassembled_ofImage {image : Image} {strings : List String} {options : NamingOptions}
    {d : Decompilation}
    (h : Pass.disassemble (.ofImage image strings options) = .ok () d) :
    Disassembled image.code d.graph := by
  have hview : d.graph.codeView = (Graph.ofCode image.code).codeView :=
    Pass.graph_of_codeView_eq (Pass.keeps_disassemble.of_ok h)
  refine ⟨hview, fun id hid => ?_⟩
  rw [Graph.size_of_codeView_eq hview] at hid
  exact Pass.targetKnown_disassemble (Graph.ofCode_ordered image.code) rfl h hid

/-- An image disassembles if every instruction of its code that leads somewhere leads to another one, and
every imported function that it calls is imported. -/
theorem exists_disassemble_ofImage {image : Image} (hcode : 0 < image.code.size)
    (h : ∀ start ∈ Graph.starts image.code,
      ((Graph.itemAt image.code start).opcode? = some .calli →
        (image.functions.get? (Graph.itemAt image.code start).operandOrZero).isSome) ∧
      (Graph.itemAt image.code start).leadsTo?.all fun target =>
        (Graph.starts image.code).contains target.toNat)
    (strings : List String) (options : NamingOptions) :
    ∃ d, Pass.disassemble (.ofImage image strings options) = .ok () d := by
  have hfirst : (Graph.ofCode image.code).first? = some 0 := by
    have hlength : 0 < (Graph.starts image.code).length :=
      List.length_pos_of_mem (List.mem_of_head? (Graph.head?_starts hcode))
    rw [Graph.first?, Graph.order_ofCode, List.head?_range, if_neg (Nat.ne_of_gt hlength)]
  refine Pass.exists_disassemble rfl hfirst fun id hid => ?_
  change id ∈ (Graph.ofCode image.code).order at hid
  rw [Graph.order_ofCode, List.mem_range] at hid
  have hitem := Graph.item_ofCode (List.getElem?_eq_getElem hid)
  obtain ⟨hcalli, hleads⟩ := h _ (List.getElem_mem hid)
  unfold Pass.Resolvable
  change (((Graph.ofCode image.code).item id).opcode? = _ → _) ∧
    ∀ target, ((Graph.ofCode image.code).item id).leadsTo? = _ → _
  rw [hitem]
  refine ⟨fun hop => ?_, fun target htarget => ?_⟩
  · change (image.functions.get? ((Graph.ofCode image.code).item id).operandOrZero).isSome
    rw [hitem]
    exact hcalli hop
  · rw [htarget, Option.all_some, List.contains_iff_mem] at hleads
    have hfound := Graph.isSome_findPos?_ofCode hleads
    rwa [UInt16.ofNat_toNat] at hfound

/-- The listing accounts for a step from `c` to `c'`.  An item stands at the instruction that is carried
out.  If the machine jumps it goes to the target of the instruction, which the item carries, unless the
code calls nowhere.  Otherwise, returns apart, it goes to the next item or to the end of the code. -/
def Foresees (g : Graph) (c c' : Conversation σ) : Prop :=
  ∃ id ∈ g.order, ∃ instruction,
    (g.item id).pos = c.machine.ip ∧
    Instruction.decode c.machine.image.code c.machine.ip = .ok instruction ∧
    (jumps c.machine instruction.opcode = true →
      instruction.jumpTarget? c.machine.ip = some c'.machine.ip ∧
      (¬(instruction.opcode = .call ∧ c'.machine.ip = nowhere) →
        (g.item id).targetPos? = some c'.machine.ip)) ∧
    (jumps c.machine instruction.opcode = false → instruction.opcode ≠ .ret →
      (∃ next, g.next? id = some next ∧ (g.item next).pos = c'.machine.ip) ∨
        (g.next? id = none ∧ c'.machine.ip.toNat = c.machine.image.code.size))

/-- What a run keeps: the machine works on the code of the image and stands at a boundary, and so do the
places to which calls return. -/
structure Tracked (image : Image) (callers : List UInt16) (c : Conversation σ) : Prop where
  loaded : c.machine.image = image
  going : c.machine.finished = false
  boundary : Graph.Boundary image.code c.machine.ip
  callers : ∀ caller ∈ callers, Graph.Boundary image.code (caller + 1)

theorem Disassembled.pos_item {code : CodeWords} {g : Graph} (h : Disassembled code g) (id : ItemId) :
    (g.item id).pos = ((Graph.ofCode code).item id).pos :=
  congrArg Prod.fst (Graph.code_of_codeView_eq h.view id)

theorem Disassembled.next?_eq {code : CodeWords} {g : Graph} (h : Disassembled code g) (id : ItemId) :
    g.next? id = (Graph.ofCode code).next? id := by
  unfold Graph.next? Graph.after Graph.startingAt
  rw [Graph.order_of_codeView_eq h.view]

/-- An item carries the target of its instruction. -/
theorem Disassembled.targetPos? {code : CodeWords} {g : Graph} (h : Disassembled code g)
    {pos target : UInt16} {id : ItemId} {instruction : Instruction}
    (hfind : (Graph.ofCode code).findPos? pos = some id)
    (hdecode : Instruction.decode code pos = .ok instruction)
    (htarget : instruction.jumpTarget? pos = some target)
    (hsomewhere : ¬(instruction.opcode = .call ∧ target = nowhere)) :
    (g.item id).targetPos? = some target ∧ ((Graph.ofCode code).findPos? target).isSome := by
  have hsize : id < g.size := by
    rw [Graph.size_of_codeView_eq h.view]
    exact (Graph.ofCode_ordered code).lt_of_mem ((Graph.ofCode_ordered code).mem_of_findPos? hfind)
  have hleads : (g.item id).leadsTo? = some target := by
    have hitem := Graph.item_ofCode (Graph.getElem?_starts_of_findPos? hfind)
    rw [Item.leadsTo?_congr (Graph.code_of_codeView_eq h.view id), hitem]
    simp only [Graph.itemAt, UInt16.ofNat_toNat, Graph.decodeItem_of_ok hdecode, Item.leadsTo?,
      Item.ofKind, Item.opcodeItem?, Option.bind_some, htarget]
    rw [Option.filter_some]
    simpa using hsomewhere
  obtain ⟨hknown, hfound⟩ := h.known id hsize target hleads
  rw [Graph.findPos?_of_codeView_eq h.view] at hfound
  exact ⟨hknown, hfound⟩

/-- The instruction that a machine is to carry out, and the item of a listing that stands there. -/
structure AtItem (g : Graph) (m : Machine) (id : ItemId) (instruction : Instruction) : Prop where
  listed : id ∈ g.order
  pos : (g.item id).pos = m.ip
  found : (Graph.ofCode m.image.code).findPos? m.ip = some id
  decoded : Instruction.decode m.image.code m.ip = .ok instruction
  inside : m.ip.toNat + instruction.length ≤ m.image.code.size

/-- An instruction that is fetched at a boundary has an item, for it does not lie outside of the code. -/
theorem Disassembled.exists_atItem {m : Machine} {g : Graph} (hg : Disassembled m.image.code g)
    (hboundary : Graph.Boundary m.image.code m.ip) {opcode : Opcode} {operand : UInt16}
    (hfetch : fetch m.image.code m.ip = .ok (opcode, operand)) :
    ∃ id instruction, AtItem g m id instruction ∧ instruction.opcode = opcode ∧
      (opcode.takesOperand = true → instruction.operand = some operand) := by
  obtain ⟨instruction, hdecode, hopcode, hoperand, hend⟩ := fetch_eq_ok hfetch
  obtain ⟨id, hfind⟩ : ∃ id, (Graph.ofCode m.image.code).findPos? m.ip = some id := by
    refine Option.isSome_iff_exists.1 (hboundary.resolve_right ?_)
    have hlength : 0 < instruction.length := Nat.lt_of_lt_of_le Nat.one_pos (Nat.le_add_right 1 _)
    omega
  have hordered := Graph.ofCode_ordered m.image.code
  refine ⟨id, instruction, ⟨?_, ?_, hfind, hdecode, hend⟩, hopcode, hoperand⟩
  · rw [Graph.order_of_codeView_eq hg.view]
    exact hordered.mem_of_findPos? hfind
  · exact (hg.pos_item id).trans (hordered.pos_of_findPos? hfind)

namespace AtItem

variable {g : Graph} {c c' : Conversation σ} {id : ItemId} {instruction : Instruction}

/-- Behind an instruction is a boundary. -/
theorem boundary_behind (h : AtItem g c.machine id instruction) (hsize : c.machine.image.code.size ≤ 65535) :
    Graph.Boundary c.machine.image.code
      (c.machine.ip + 1 + UInt16.ofNat instruction.opcode.operandCount) := by
  rcases Graph.behind_instruction hsize h.found h.decoded h.inside with ⟨_, -, -, hfound⟩ | ⟨-, hlast⟩
  · exact Or.inl hfound
  · exact Or.inr hlast.ge

/-- A jump is foreseen, and leads to a boundary. -/
theorem jump (h : AtItem g c.machine id instruction) (hsize : c.machine.image.code.size ≤ 65535)
    (hg : Disassembled c.machine.image.code g) (hjumps : jumps c.machine instruction.opcode = true)
    (htarget : instruction.jumpTarget? c.machine.ip = some c'.machine.ip) :
    Foresees g c c' ∧ Graph.Boundary c.machine.image.code c'.machine.ip := by
  refine ⟨⟨id, h.listed, instruction, h.pos, h.decoded, fun _ => ⟨htarget, fun hsomewhere => ?_⟩,
    fun hnot => ?_⟩, ?_⟩
  · exact (hg.targetPos? h.found h.decoded htarget hsomewhere).1
  · rw [hjumps] at hnot
    cases hnot
  · by_cases hnowhere : instruction.opcode = .call ∧ c'.machine.ip = nowhere
    · -- Nowhere is the last position that there is, and lies outside of the code.
      right
      rw [hnowhere.2]
      exact hsize
    · exact Or.inl (hg.targetPos? h.found h.decoded htarget hnowhere).2

/-- A step to behind the instruction is foreseen. -/
theorem next (h : AtItem g c.machine id instruction) (hsize : c.machine.image.code.size ≤ 65535)
    (hg : Disassembled c.machine.image.code g) (hjumps : jumps c.machine instruction.opcode = false)
    (hip : c'.machine.ip = c.machine.ip + 1 + UInt16.ofNat instruction.opcode.operandCount) :
    Foresees g c c' := by
  refine ⟨id, h.listed, instruction, h.pos, h.decoded, fun hyes => ?_, fun _ _ => ?_⟩
  · rw [hjumps] at hyes
    cases hyes
  · rw [hg.next?_eq, hip]
    rcases Graph.behind_instruction hsize h.found h.decoded h.inside with ⟨next, hnext, hpos, -⟩ | hend
    · exact Or.inl ⟨next, hnext, (hg.pos_item next).trans hpos⟩
    · exact Or.inr hend

/-- Of a return the listing does not say where it leads. -/
theorem ret (h : AtItem g c.machine id instruction) (hret : instruction.opcode = .ret) :
    Foresees g c c' := by
  refine ⟨id, h.listed, instruction, h.pos, h.decoded, fun hyes => ?_, fun _ hne => absurd hret hne⟩
  rw [hret] at hyes
  cases hyes

end AtItem

/-- The next instruction leaves return addresses in front of boundaries, for it is a call if it pushes one. -/
theorem Tracked.boundary_callers {image : Image} {callers : List UInt16} {c : Conversation σ}
    (hc : Tracked image callers c)
    (hcall : ∀ operand, fetch c.machine.image.code c.machine.ip = .ok (.call, operand) →
      Graph.Boundary image.code (c.machine.ip + 1 + 1)) :
    ∀ caller ∈ c.machine.returnAddress?.toList ++ callers, Graph.Boundary image.code (caller + 1) := by
  intro caller hcaller
  rcases List.mem_append.1 hcaller with hcaller | hcaller
  · rw [Option.mem_toList, returnAddress?] at hcaller
    split at hcaller
    · rename_i operand hfetch
      cases hcaller
      exact hcall operand hfetch
    · cases hcaller
  · exact hc.callers caller hcaller

/-- A step of a tracked machine is foreseen, and the machine stays tracked. -/
theorem Tracked.step {image : Image} (hsize : image.code.size ≤ 65535) {g : Graph}
    (hg : Disassembled image.code g) {host : Host σ} {callers : List UInt16} {c c' : Conversation σ}
    (hc : Tracked image callers c) (hreturns : ReturnsTo callers c.machine)
    (hstep : Machine.step host c = .ok .continue c') :
    Foresees g c c' ∧ Tracked image (c.machine.returnAddress?.toList ++ callers) c' := by
  obtain ⟨hgoing, opcode, operand, flow, c₁, target, hfetch, hperform, htarget, rfl⟩ :=
    step_eq_continue.1 hstep
  have hfixed : fixed c₁ = fixed c := (keeps_perform host _ _ _).of_ok hperform
  simp only [fixed, Fixed.mk.injEq] at hfixed
  obtain ⟨himage, -, hfinished⟩ := hfixed
  obtain rfl := hc.loaded
  obtain ⟨id, instruction, hat, rfl, hoperand⟩ := hg.exists_atItem hc.boundary hfetch
  have hbehind := hat.boundary_behind hsize
  have hcallers := hc.boundary_callers fun other hcall => by
    obtain ⟨hopcode, -⟩ := Prod.mk.inj (Except.ok.inj (hfetch.symm.trans hcall))
    rw [hopcode] at hbehind
    exact hbehind
  have htracked (h : Graph.Boundary c.machine.image.code target) :
      Tracked c.machine.image (c.machine.returnAddress?.toList ++ callers) (atPos c₁ target) :=
    ⟨himage, hfinished.trans hgoing, h, hcallers⟩
  rcases perform_flow hperform with ⟨goal, hjumps, htakes, hjump, rfl⟩ | ⟨hjumps, -, rfl⟩ |
    ⟨hret, hdepth, caller, htop, rfl⟩ | ⟨reason, rfl⟩
  · cases htarget
    rw [← hoperand htakes] at hjump
    have hforesees : Foresees g c (atPos c₁ target) ∧ Graph.Boundary c.machine.image.code target :=
      hat.jump hsize hg hjumps hjump
    exact ⟨hforesees.1, htracked hforesees.2⟩
  · cases htarget
    exact ⟨hat.next hsize hg hjumps rfl, htracked hbehind⟩
  · cases htarget
    rw [hret] at hfetch
    exact ⟨hat.ret hret, htracked (hc.callers caller (hreturns operand hfetch hdepth caller htop))⟩
  · cases htarget

theorem Tracked.run {image : Image} (hsize : image.code.size ≤ 65535) {g : Graph}
    (hg : Disassembled image.code g) {host : Host σ} {begin : Conversation σ}
    (hbegin : Tracked image [] begin) {callers : List UInt16} {c : Conversation σ}
    (hrun : Run host begin callers c) : Tracked image callers c := by
  induction hrun with
  | begin => exact hbegin
  | step run returns continues ih => exact (ih.step hsize hg returns continues).2

theorem tracked_init {image : Image} {host : Host σ} {globals : List UInt16}
    {before begin : Conversation σ} (himage : before.machine.image = image)
    (hinit : init host globals before = .ok () begin) : Tracked image [] begin := by
  obtain ⟨himage', hip, hfinished⟩ := init_eq_ok hinit
  refine ⟨himage'.trans himage, hfinished, ?_, by simp⟩
  rw [hip]
  exact Graph.boundary_zero image.code

/-- Disassembly covers execution: on code that disassembles, in every run whose returns go back to calls, the
machine is at an item or outside of the code, where it faults, and the listing foresees every step. -/
theorem run_foreseen {image : Image} (hsize : image.code.size ≤ 65535) {strings : List String}
    {options : NamingOptions} {d : Decompilation}
    (hdisassemble : Pass.disassemble (.ofImage image strings options) = .ok () d)
    {host : Host σ} {globals : List UInt16} {before begin : Conversation σ}
    (himage : before.machine.image = image) (hinit : init host globals before = .ok () begin)
    {callers : List UInt16} {c : Conversation σ} (hrun : Run host begin callers c) :
    ((∃ id ∈ (Graph.ofCode image.code).order,
        ((Graph.ofCode image.code).item id).isOpcodeItem = true ∧
        ((Graph.ofCode image.code).item id).pos = c.machine.ip) ∨
      (image.code.size ≤ c.machine.ip.toNat ∧
        Machine.step host c = .error (.codeOutOfBounds c.machine.ip) (finish c))) ∧
    ∀ c', ReturnsTo callers c.machine → Machine.step host c = .ok .continue c' →
      Foresees d.graph c c' := by
  have hg := disassembled_ofImage hdisassemble
  have hc := (tracked_init himage hinit).run hsize hg hrun
  refine ⟨?_, fun c' hreturns hstep => (hc.step hsize hg hreturns hstep).1⟩
  rcases hc.boundary with hfound | houtside
  · obtain ⟨id, hfind⟩ := Option.isSome_iff_exists.1 hfound
    have hordered := Graph.ofCode_ordered image.code
    refine Or.inl ⟨id, hordered.mem_of_findPos? hfind, ?_, hordered.pos_of_findPos? hfind⟩
    rw [Graph.item_ofCode (Graph.getElem?_starts_of_findPos? hfind)]
    rfl
  · have hcode : c.machine.image.code = image.code := by rw [hc.loaded]
    refine Or.inr ⟨houtside, step_outside hc.going ?_⟩
    rw [hcode]
    exact houtside

/-- A call within a call, at 0 and 3, and the returns from them, at 6 and 5. -/
def nestedCalls : Image := .ofCode #[19, 3, 38, 19, 6, 21, 21]

/-- A machine with a small stack, before it is started. -/
def nestedCallsMachine : Machine := { ofImage nestedCalls [] with stack := .ofSize 4 }

theorem run_nestedCalls :
    ∃ begin outer inner : Conversation Unit,
      init Host.silent [] ⟨nestedCallsMachine, ()⟩ = .ok () begin ∧
      Machine.step Host.silent begin = .ok .continue outer ∧
      Machine.step Host.silent outer = .ok .continue inner ∧
      begin.machine.returnAddress? = some 1 ∧ outer.machine.returnAddress? = some 4 ∧
      inner.machine.ip = 6 ∧ inner.machine.top? = some 4 :=
  ⟨_, _, _, rfl, rfl, rfl, rfl, rfl, rfl, rfl⟩

theorem returnsTo_of_call {m : Machine} {caller : UInt16} (h : m.returnAddress? = some caller)
    (callers : List UInt16) : ReturnsTo callers m := by
  intro operand hfetch
  rw [returnAddress?, hfetch] at h
  cases h

theorem run_foreseen_nestedCalls :
    ∃ (d : Decompilation) (begin c : Conversation Unit),
      Pass.disassemble (.ofImage nestedCalls [] ⟨false, .empty⟩) = .ok () d ∧
      init Host.silent [] ⟨nestedCallsMachine, ()⟩ = .ok () begin ∧
      Run Host.silent begin [4, 1] c ∧ ReturnsTo [4, 1] c.machine ∧ c.machine.ip = 6 ∧
      ∀ c', Machine.step Host.silent c = .ok .continue c' → Foresees d.graph c c' := by
  obtain ⟨d, hd⟩ : ∃ d, Pass.disassemble (.ofImage nestedCalls [] ⟨false, .empty⟩) = .ok () d :=
    exists_disassemble_ofImage (by decide) (by decide) [] ⟨false, .empty⟩
  obtain ⟨begin, outer, inner, hinit, houter, hinner, hfirst, hsecond, hip, htop⟩ := run_nestedCalls
  have hrun₀ : Run Host.silent begin [] begin := .begin
  have hrun₁ := hrun₀.step (returnsTo_of_call hfirst _) houter
  have hrun₂ := hrun₁.step (returnsTo_of_call hsecond _) hinner
  rw [hfirst, hsecond] at hrun₂
  have hreturns : ReturnsTo [4, 1] inner.machine := by
    intro operand _ _ caller hcaller
    rw [htop] at hcaller
    cases hcaller
    exact List.mem_cons_self
  refine ⟨d, begin, inner, hd, hinit, hrun₂, hreturns, hip, fun c' hstep => ?_⟩
  have hsize : nestedCalls.code.size ≤ 65535 := by decide
  exact (run_foreseen hsize hd rfl hinit hrun₂).2 c' hreturns hstep

end Machine

end Parley
