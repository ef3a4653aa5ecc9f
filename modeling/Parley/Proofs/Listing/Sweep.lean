import Parley.Proofs.Listing.Order
set_option autoImplicit false

/-!
# The graph of a code segment

The items of a code segment stand at the positions that the linear sweep visits.  Each of these starts
where the instruction before it ends, so the listing is ordered and the item behind another one is found
at the next position.  Each stands for the words that it takes, so the items stand for all words of the code.
-/

namespace Parley

/-- The words that an item stands for: that of the instruction, and its operand. -/
def Item.words (item : Item) : List UInt16 :=
  item.opcodeItem?.elim [] fun op => op.word :: op.operand.toList

namespace Graph

/-! ## What is read at a position -/

/-- What is read at a position: the opcode of the word there, if it has one, and the next word if the opcode takes
an operand. -/
theorem decodeItem_eq (code : CodeWords) (pos : UInt16) :
    decodeItem code pos = match code[pos.toNat]?.bind Opcode.ofWord? with
      | none => (none, none)
      | some opcode => (some opcode, if opcode.takesOperand then code[pos.toNat + 1]? else none) := by
  unfold decodeItem Instruction.decode
  cases code[pos.toNat]? with
  | none => rfl
  | some word =>
    cases hknown : Opcode.ofWord? word with
    | none => simp [hknown]
    | some opcode =>
      cases htakes : opcode.takesOperand with
      | false => simp [hknown, htakes]
      | true => cases hnext : code[pos.toNat + 1]? <;> simp [hknown, htakes]

/-- The opcode of an item is the one that its word stands for. -/
theorem opcode_decodeItem {code : CodeWords} {pos : UInt16} (h : pos.toNat < code.size) :
    (decodeItem code pos).1 = Opcode.ofWord? (code.getD pos.toNat 0) := by
  rw [decodeItem_eq, Array.getD_eq_getD_getElem?, Array.getElem?_eq_getElem h, Option.bind_some, Option.getD_some]
  cases Opcode.ofWord? code[pos.toNat] <;> rfl

/-- An operand stands behind an opcode that takes one, and is the next word. -/
theorem operand_decodeItem_eq_some {code : CodeWords} {pos operand : UInt16}
    (h : (decodeItem code pos).2 = some operand) : code[pos.toNat + 1]? = some operand := by
  rw [decodeItem_eq] at h
  split at h
  · cases h
  · dsimp only at h
    split at h
    · exact h
    · cases h

/-- An instruction lacks its operand only where the code ends. -/
theorem size_le_of_operand_decodeItem {code : CodeWords} {pos : UInt16} {opcode : Opcode}
    (h : (decodeItem code pos).1 = some opcode) (htakes : opcode.takesOperand = true)
    (hnone : (decodeItem code pos).2 = none) : code.size ≤ pos.toNat + 1 := by
  rw [decodeItem_eq] at h hnone
  split at h
  · cases h
  · cases h
    rename_i hknown
    rw [hknown] at hnone
    dsimp only at hnone
    rw [if_pos htakes] at hnone
    exact Array.getElem?_eq_none_iff.1 hnone

/-- An instruction that takes no operand has none. -/
theorem operand_decodeItem {code : CodeWords} {pos : UInt16} {opcode : Opcode}
    (h : (decodeItem code pos).1 = some opcode) (htakes : opcode.takesOperand = false) :
    (decodeItem code pos).2 = none := by
  rw [decodeItem_eq] at h ⊢
  split at h
  · cases h
  · cases h
    simp [htakes]

/-! ## Where items start -/

/-- The number of words that the item at word `index` takes. -/
def strideAt (code : CodeWords) (index : Nat) : Nat :=
  if (decodeItem code (UInt16.ofNat index)).2.isSome then 2 else 1

/-- The item of the word `index`. -/
def itemAt (code : CodeWords) (index : Nat) : Item :=
  let decoded := decodeItem code (UInt16.ofNat index)
  .ofKind (UInt16.ofNat index) (.opcode ⟨code.getD index 0, decoded.1, decoded.2, none, none⟩)

/-- The number of words at which items can start. -/
def sweptWords (code : CodeWords) : Nat := min code.size codeLimit

/-- The words from `index` on at which items start, at most `fuel` of them. -/
def startsFrom (code : CodeWords) : Nat → Nat → List Nat
  | 0, _ => []
  | fuel + 1, index =>
    if index < sweptWords code then index :: startsFrom code fuel (index + strideAt code index)
    else []

/-- The words at which items start. -/
def starts (code : CodeWords) : List Nat := startsFrom code (sweptWords code) 0

theorem itemsFrom_eq_map (code : CodeWords) (fuel index : Nat) :
    itemsFrom code fuel index = (startsFrom code fuel index).map (itemAt code) := by
  induction fuel generalizing index with
  | zero => rfl
  | succ fuel ih =>
    have hswept : index < sweptWords code ↔ index < code.size ∧ index < codeLimit := Nat.lt_min
    rw [itemsFrom, startsFrom]
    by_cases h : index < code.size ∧ index < codeLimit
    · rw [dif_pos h, if_pos (hswept.2 h), List.map_cons, ← ih]
      simp [itemAt, strideAt, h.1]
    · rw [dif_neg h, if_neg (fun hs => h (hswept.1 hs)), List.map_nil]

theorem codeItems_eq_map (code : CodeWords) : codeItems code = (starts code).map (itemAt code) :=
  itemsFrom_eq_map code _ 0

theorem strideAt_pos (code : CodeWords) (index : Nat) : 0 < strideAt code index := by
  unfold strideAt
  split <;> omega

theorem le_of_mem_startsFrom {code : CodeWords} {fuel index start : Nat}
    (h : start ∈ startsFrom code fuel index) : index ≤ start := by
  induction fuel generalizing index with
  | zero => simp [startsFrom] at h
  | succ fuel ih =>
    rw [startsFrom] at h
    split at h
    · rcases List.mem_cons.1 h with rfl | h
      · exact Nat.le_refl _
      · have := ih h
        omega
    · simp at h

theorem lt_of_mem_startsFrom {code : CodeWords} {fuel index start : Nat}
    (h : start ∈ startsFrom code fuel index) : start < sweptWords code := by
  induction fuel generalizing index with
  | zero => simp [startsFrom] at h
  | succ fuel ih =>
    rw [startsFrom] at h
    split at h
    · rename_i hlt
      rcases List.mem_cons.1 h with rfl | h
      · exact hlt
      · exact ih h
    · simp at h

theorem pairwise_startsFrom (code : CodeWords) (fuel index : Nat) :
    (startsFrom code fuel index).Pairwise (· < ·) := by
  induction fuel generalizing index with
  | zero => exact List.Pairwise.nil
  | succ fuel ih =>
    rw [startsFrom]
    split
    · refine List.pairwise_cons.2 ⟨fun start h => ?_, ih _⟩
      have hle := le_of_mem_startsFrom h
      have hpos := strideAt_pos code index
      omega
    · exact List.Pairwise.nil

/-- With fuel for all words left, the sweep ends only where the words end. -/
theorem head?_startsFrom {code : CodeWords} {fuel index : Nat}
    (hfuel : sweptWords code ≤ index + fuel) :
    (startsFrom code fuel index).head? =
      if index < sweptWords code then some index else none := by
  cases fuel with
  | zero =>
    have hnot : ¬ index < sweptWords code := by omega
    simp [startsFrom, hnot]
  | succ fuel =>
    rw [startsFrom]
    split <;> rfl

/-- The start behind a start is where the item there ends. -/
theorem head?_behind_startsFrom {code : CodeWords} {fuel index start : Nat} {front behind : List Nat}
    (hfuel : sweptWords code ≤ index + fuel)
    (h : startsFrom code fuel index = front ++ start :: behind) :
    behind.head? = if start + strideAt code start < sweptWords code
      then some (start + strideAt code start) else none := by
  induction fuel generalizing index front with
  | zero => simp [startsFrom] at h
  | succ fuel ih =>
    rw [startsFrom] at h
    split at h
    · have hpos := strideAt_pos code index
      cases front with
      | nil =>
        rw [List.nil_append] at h
        obtain ⟨rfl, rfl⟩ := List.cons.inj h
        exact head?_startsFrom (by omega)
      | cons x front =>
        rw [List.cons_append] at h
        exact ih (by omega) (List.cons.inj h).2
    · simp at h

theorem lt_of_mem_starts {code : CodeWords} {start : Nat} (h : start ∈ starts code) :
    start < code.size ∧ start < 65536 :=
  Nat.lt_min.1 (lt_of_mem_startsFrom h)

theorem toNat_start {code : CodeWords} {start : Nat} (h : start ∈ starts code) :
    (UInt16.ofNat start).toNat = start :=
  UInt16.toNat_ofNat_of_lt (lt_of_mem_starts h).2

/-- The first item of code stands at its first word. -/
theorem head?_starts {code : CodeWords} (h : 0 < code.size) : (starts code).head? = some 0 := by
  have hswept : 0 < sweptWords code := Nat.lt_min.2 ⟨h, by decide⟩
  rw [starts, head?_startsFrom (by omega), if_pos hswept]

theorem head?_behind_starts {code : CodeWords} {start : Nat} {front behind : List Nat}
    (h : starts code = front ++ start :: behind) :
    behind.head? = if start + strideAt code start < sweptWords code
      then some (start + strideAt code start) else none :=
  head?_behind_startsFrom (by omega) h

/-! ## The words of items -/

theorem words_itemAt (code : CodeWords) (index : Nat) :
    (itemAt code index).words = code.getD index 0 :: (decodeItem code (UInt16.ofNat index)).2.toList := rfl

/-- The items from a word on have the words from there on. -/
theorem words_startsFrom {code : CodeWords} (hsize : code.size ≤ codeLimit) {fuel index : Nat}
    (hfuel : code.size ≤ index + fuel) :
    (startsFrom code fuel index).flatMap (fun start => (itemAt code start).words) =
      code.toList.drop index := by
  have hswept : sweptWords code = code.size := Nat.min_eq_left hsize
  induction fuel generalizing index with
  | zero => rw [startsFrom, List.flatMap_nil, List.drop_eq_nil_of_le (by simpa using hfuel)]
  | succ fuel ih =>
    rw [startsFrom, hswept]
    split
    · rename_i hlt
      have hpos : (UInt16.ofNat index).toNat = index :=
        UInt16.toNat_ofNat_of_lt (Nat.lt_of_lt_of_le hlt hsize)
      have hword : code.toList.drop index = code.getD index 0 :: code.toList.drop (index + 1) := by
        rw [List.drop_eq_getElem_cons (by simpa using hlt)]
        simp [Array.getD_eq_getD_getElem?, hlt]
      have hpositive := strideAt_pos code index
      rw [List.flatMap_cons, words_itemAt, ih (by omega), hword, List.cons_append, strideAt]
      cases hoperand : (decodeItem code (UInt16.ofNat index)).2 with
      | none => rfl
      | some operand =>
        have hnext := operand_decodeItem_eq_some hoperand
        rw [hpos] at hnext
        obtain ⟨hlt', hget⟩ := Array.getElem?_eq_some_iff.1 hnext
        rw [List.drop_eq_getElem_cons (l := code.toList) (i := index + 1) (by simpa using hlt')]
        simp [hget]
    · rename_i hge
      rw [List.flatMap_nil, List.drop_eq_nil_of_le (by simpa using hge)]

/-- The words of the items are those of the code, in order. -/
theorem words_codeItems {code : CodeWords} (hsize : code.size ≤ codeLimit) :
    (codeItems code).flatMap Item.words = code.toList := by
  have hfuel : code.size ≤ 0 + sweptWords code := by
    rw [Nat.zero_add]
    exact Nat.le_min.2 ⟨Nat.le_refl _, hsize⟩
  rw [codeItems_eq_map, List.flatMap_map, starts, words_startsFrom hsize hfuel, List.drop_zero]

/-! ## Graphs of items -/

@[simp] theorem order_ofItems (items : List Item) :
    (ofItems items).order = List.range items.length := rfl

@[simp] theorem size_ofItems (items : List Item) : (ofItems items).size = items.length := by
  simp [ofItems, size]

theorem item_ofItems (items : List Item) (id : ItemId) :
    (ofItems items).item id = items.getD id default := by
  simp [ofItems, item, Array.getD_eq_getD_getElem?]

/-- The first items of their positions, where `firstAt` holds those of the items before. -/
theorem getElem?_foldl_insertIfNew (pos : UInt16) (entries : List (Item × ItemId))
    (firstAt : Std.TreeMap UInt16 ItemId) :
    (entries.foldl (fun firstAt entry => firstAt.insertIfNew entry.1.pos entry.2) firstAt)[pos]? =
      (firstAt[pos]?).or ((entries.find? fun entry => entry.1.pos = pos).map (·.2)) := by
  induction entries generalizing firstAt with
  | nil => simp
  | cons entry rest ih =>
    rw [List.foldl_cons, ih, Std.TreeMap.getElem?_insertIfNew, List.find?_cons]
    by_cases hpos : entry.1.pos = pos
    · subst hpos
      by_cases hmem : entry.1.pos ∈ firstAt <;> simp [hmem]
    · simp [hpos]

theorem findPos?_ofItems (items : List Item) (pos : UInt16) :
    (ofItems items).findPos? pos =
      (items.zipIdx.find? fun entry => entry.1.pos = pos).map (·.2) := by
  have hfold := getElem?_foldl_insertIfNew pos items.zipIdx ∅
  simpa [ofItems, findPos?] using hfold

/-- What relates items in their order relates them along the listing that they make. -/
theorem pairwise_order_ofItems {r : Item → Item → Prop} {items : List Item} (h : items.Pairwise r) :
    (ofItems items).order.Pairwise fun a b => r ((ofItems items).item a) ((ofItems items).item b) := by
  rw [order_ofItems, List.pairwise_iff_getElem]
  intro i j hi hj hij
  rw [List.length_range] at hi hj
  rw [List.getElem_range, List.getElem_range, item_ofItems, item_ofItems]
  simpa [hi, hj] using (List.pairwise_iff_getElem.1 h) i j hi hj hij

/-- Items in the order of their positions make an ordered listing. -/
theorem ofItems_ordered {items : List Item} (h : items.Pairwise fun a b => a.pos ≤ b.pos) :
    (ofItems items).Ordered := by
  refine ⟨List.nodup_range, ?_, pairwise_order_ofItems h, ?_⟩
  · intro id
    rw [order_ofItems, size_ofItems, List.mem_range]
  · intro pos
    rw [findPos?_ofItems, order_ofItems]
    have hzip : items.zipIdx =
        (List.range items.length).map fun id => ((ofItems items).item id, id) := by
      apply List.ext_getElem
      · simp
      · intro i hi _
        rw [List.length_zipIdx] at hi
        simp [item_ofItems, hi]
    rw [hzip, List.find?_map, Option.map_map]
    simp [Function.comp_def]

theorem pos_itemAt (code : CodeWords) (index : Nat) :
    (itemAt code index).pos = UInt16.ofNat index := rfl

/-! ## The graph of a code segment -/

theorem order_ofCode (code : CodeWords) :
    (ofCode code).order = List.range (starts code).length := by
  simp [ofCode, codeItems_eq_map]

theorem item_ofCode {code : CodeWords} {id : ItemId} {start : Nat}
    (h : (starts code)[id]? = some start) : (ofCode code).item id = itemAt code start := by
  rw [ofCode, item_ofItems, codeItems_eq_map, List.getD_eq_getElem?_getD, List.getElem?_map, h]
  rfl

/-- The items of a graph in the order of its listing. -/
def listing (g : Graph) : List Item := g.order.map g.item

theorem listing_ofCode (code : CodeWords) : (ofCode code).listing = codeItems code := by
  apply List.ext_getElem
  · simp [listing, ofCode]
  · intro id hid hid'
    have hlt : id < (ofCode code).order.length := by simpa [listing] using hid
    have horder : (ofCode code).order[id] = id := List.getElem_range _
    simp only [listing, List.getElem_map]
    rw [horder, ofCode, item_ofItems]
    simp [hid']

/-- What holds of an item that is no instruction and of all instructions holds of all items. -/
theorem forall_item_ofCode {p : Item → Prop} {code : CodeWords} (hdefault : p default)
    (hstart : ∀ start ∈ starts code, p (itemAt code start)) (id : ItemId) : p ((ofCode code).item id) := by
  rw [ofCode, item_ofItems, codeItems_eq_map, List.getD_eq_getElem?_getD, List.getElem?_map]
  cases h : (starts code)[id]? with
  | none => exact hdefault
  | some start => exact hstart start (List.mem_of_getElem? h)

theorem pairwise_codeItems (code : CodeWords) : (codeItems code).Pairwise fun a b => a.pos < b.pos := by
  rw [codeItems_eq_map, List.pairwise_map]
  refine List.Pairwise.imp_of_mem ?_ (pairwise_startsFrom code _ 0)
  intro a b ha hb hlt
  rwa [pos_itemAt, pos_itemAt, UInt16.lt_iff_toNat_lt, toNat_start ha, toNat_start hb]

/-- The graph of a code segment is ordered. -/
theorem ofCode_ordered (code : CodeWords) : (ofCode code).Ordered :=
  ofItems_ordered ((pairwise_codeItems code).imp UInt16.le_of_lt)

/-- An item is found at the position of a start. -/
theorem isSome_findPos?_ofCode {code : CodeWords} {start : Nat} (h : start ∈ starts code) :
    ((ofCode code).findPos? (UInt16.ofNat start)).isSome := by
  obtain ⟨id, hid, hstart⟩ := List.getElem_of_mem h
  rw [(ofCode_ordered code).findPos, List.find?_isSome]
  refine ⟨id, ?_, ?_⟩
  · rw [order_ofCode, List.mem_range]
    exact hid
  · rw [item_ofCode (List.getElem?_eq_some_iff.2 ⟨hid, hstart⟩), pos_itemAt]
    exact decide_eq_true rfl

/-- The item found at a position stands at the start there. -/
theorem getElem?_starts_of_findPos? {code : CodeWords} {pos : UInt16} {id : ItemId}
    (h : (ofCode code).findPos? pos = some id) : (starts code)[id]? = some pos.toNat := by
  rw [(ofCode_ordered code).findPos] at h
  have hmem : id ∈ (ofCode code).order := List.mem_of_find?_eq_some h
  have hpos : ((ofCode code).item id).pos = pos := by simpa using List.find?_some h
  rw [order_ofCode, List.mem_range] at hmem
  have hstart : (starts code)[id]? = some (starts code)[id] := List.getElem?_eq_getElem hmem
  rw [item_ofCode hstart, pos_itemAt] at hpos
  rw [hstart, ← hpos, toNat_start (List.getElem_mem hmem)]

/-- The item behind another one stands where that one ends, and behind the last one there are no words
left. -/
theorem next?_ofCode {code : CodeWords} {id start : Nat}
    (h : (starts code)[id]? = some start) :
    (if start + strideAt code start < sweptWords code
      then (starts code)[id + 1]? = some (start + strideAt code start) ∧
        (ofCode code).next? id = some (id + 1)
      else (ofCode code).next? id = none) := by
  obtain ⟨hid, hstart⟩ := List.getElem?_eq_some_iff.1 h
  have hsplit : starts code = (starts code).take id ++ start :: (starts code).drop (id + 1) := by
    rw [← hstart, ← List.drop_eq_getElem_cons hid, List.take_append_drop]
  have hbehind : (starts code)[id + 1]? = _ := List.head?_drop.symm.trans (head?_behind_starts hsplit)
  obtain ⟨count, hlength⟩ := Nat.exists_eq_add_of_le (show id + 1 ≤ (starts code).length from hid)
  have horder : (ofCode code).order = List.range' 0 id ++ id :: List.range' (id + 1) count := by
    rw [order_ofCode, hlength, List.range_eq_range', Nat.add_assoc, Nat.add_comm 1,
      ← List.range'_append_1, List.range'_succ, Nat.zero_add]
  rw [next?_split horder (by simp)]
  split
  · rename_i hlt
    rw [if_pos hlt] at hbehind
    have hid' : id + 1 < (starts code).length := (List.getElem?_eq_some_iff.1 hbehind).1
    have hcount : count = count - 1 + 1 := by omega
    refine ⟨hbehind, ?_⟩
    rw [hcount, List.range'_succ, List.head?_cons]
  · rename_i hlt
    rw [if_neg hlt] at hbehind
    have hid' : (starts code).length ≤ id + 1 := List.getElem?_eq_none_iff.1 hbehind
    have hcount : count = 0 := by omega
    rw [hcount]
    rfl

theorem exists_start_of_lt {code : CodeWords} {id : ItemId} (h : id < (ofCode code).size) :
    ∃ start, (starts code)[id]? = some start := by
  have hmem := ((ofCode_ordered code).mem_order id).2 h
  rw [order_ofCode, List.mem_range] at hmem
  exact ⟨_, List.getElem?_eq_getElem hmem⟩

theorem isOpcodeItem_ofCode {code : CodeWords} {id : ItemId} (h : id < (ofCode code).size) :
    ((ofCode code).item id).isOpcodeItem = true := by
  obtain ⟨start, hstart⟩ := exists_start_of_lt h
  rw [item_ofCode hstart]
  rfl

end Graph

end Parley
