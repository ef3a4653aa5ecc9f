import Parley.Proofs.Listing.Walk
set_option autoImplicit false

/-!
# What a search for a pattern finds

A pattern is searched for in one pass.  If its first opcode does not recur in it, the pass misses nothing: it
finds the first instruction from which on the opcodes of the pattern stand, whatever it was broken off in before.
-/

namespace Parley.Graph

variable {g g' : Graph} {start id : ItemId} {pattern tail : List Opcode} {head : Opcode}

/-- The first entry from which on the opcodes of a pattern stand. -/
def firstSpelled (pattern : List Opcode) : List (ItemId × Option Opcode) → Option ItemId
  | [] => none
  | (id, opcode?) :: rest =>
    if pattern.map some <+: opcode? :: rest.map Prod.snd then some id else firstSpelled pattern rest

/-- What is left of a pattern stands at the front of a list if its next opcode does, and the rest behind. -/
theorem drop_map_some_prefix_cons {matched : Nat} (hmatched : matched < pattern.length)
    {opcode? : Option Opcode} {rest : List (Option Opcode)} :
    (pattern.drop matched).map some <+: opcode? :: rest ↔
      opcode? = pattern[matched]? ∧ (pattern.drop (matched + 1)).map some <+: rest := by
  rw [List.drop_eq_getElem_cons hmatched, List.map_cons, List.cons_prefix_cons,
    List.getElem?_eq_getElem hmatched, eq_comm]

/-- What a pass comes to in which part of a pattern has been met, from `found` on: it goes on to the end of the pattern,
or else finds what is found from here on. -/
def resumed (pattern : List Opcode) (matched : Nat) (found : Option ItemId)
    (entries : List (ItemId × Option Opcode)) : Option ItemId :=
  if matched ≠ 0 ∧ (pattern.drop matched).map some <+: entries.map Prod.snd then found else firstSpelled pattern entries

section Resumed

variable {matched : Nat} {found : Option ItemId} {opcode? : Option Opcode} {rest : List (ItemId × Option Opcode)}

theorem resumed_zero (pattern : List Opcode) (found : Option ItemId) (entries : List (ItemId × Option Opcode)) :
    resumed pattern 0 found entries = firstSpelled pattern entries :=
  if_neg fun h => h.1 rfl

theorem resumed_nil (hmatched : matched < pattern.length) : resumed pattern matched found [] = none := by
  rw [resumed, if_neg]
  · rfl
  · rintro ⟨-, hprefix⟩
    rw [List.drop_eq_getElem_cons hmatched] at hprefix
    exact absurd (List.prefix_nil.1 hprefix) (List.cons_ne_nil _ _)

theorem firstSpelled_of_head (pattern : List Opcode) (rest : List (ItemId × Option Opcode)) (id : ItemId) :
    firstSpelled (head :: pattern) ((id, some head) :: rest) =
      if pattern.map some <+: rest.map Prod.snd then some id else firstSpelled (head :: pattern) rest := by
  rw [firstSpelled, List.map_cons]
  simp only [List.cons_prefix_cons, true_and]

theorem firstSpelled_of_ne (h : opcode? ≠ some head) (rest : List (ItemId × Option Opcode)) (id : ItemId) :
    firstSpelled (head :: tail) ((id, opcode?) :: rest) = firstSpelled (head :: tail) rest := by
  rw [firstSpelled, List.map_cons, if_neg]
  rintro hprefix
  exact h (List.cons_prefix_cons.1 hprefix).1.symm

/-- The match goes on.  It begins here if nothing has been met, and only then, since the first opcode does not recur. -/
theorem resumed_of_next (hhead : head ∉ tail) (hmatched : matched < (head :: tail).length)
    (hnext : opcode? = (head :: tail)[matched]?) :
    resumed (head :: tail) matched found ((id, opcode?) :: rest) =
      if ((head :: tail).drop (matched + 1)).map some <+: rest.map Prod.snd then
        if matched = 0 then some id else found
      else firstSpelled (head :: tail) rest := by
  cases matched with
  | zero =>
    have hopcode : opcode? = some head := hnext
    rw [resumed_zero, hopcode, firstSpelled_of_head]
    rfl
  | succ before =>
    have hother : opcode? ≠ some head := by
      rintro rfl
      exact hhead (List.mem_of_getElem? (List.getElem?_cons_succ ▸ hnext.symm))
    rw [resumed, List.map_cons, firstSpelled_of_ne hother]
    simp only [drop_map_some_prefix_cons hmatched, hnext, true_and, ne_eq, Nat.succ_ne_zero, not_false_eq_true,
      if_false]

/-- The match is broken off, and what is found is found from here on. -/
theorem resumed_of_ne (hmatched : matched < pattern.length) (hnext : opcode? ≠ pattern[matched]?) :
    resumed pattern matched found ((id, opcode?) :: rest) = firstSpelled pattern ((id, opcode?) :: rest) := by
  rw [resumed, if_neg]
  rintro ⟨-, hprefix⟩
  exact hnext ((drop_map_some_prefix_cons hmatched).1 hprefix).1

end Resumed

/-- A pass in which part of a pattern has been met comes to what it is said to come to. -/
theorem scanPattern_eq (hhead : head ∉ tail) {matched : Nat} (hmatched : matched < (head :: tail).length)
    (found : Option ItemId) (entries : List (ItemId × Option Opcode)) :
    scanPattern (head :: tail) matched found entries = resumed (head :: tail) matched found entries := by
  induction entries generalizing matched found with
  | nil => exact (resumed_nil hmatched).symm
  | cons entry rest ih =>
    obtain ⟨id, opcode?⟩ := entry
    rw [scanPattern]
    simp only [Bool.and_eq_true, beq_iff_eq, List.head?_cons]
    by_cases hnext : opcode? = (head :: tail)[matched]?
    · have hsome : opcode?.isSome = true := by
        rw [hnext, List.getElem?_eq_getElem hmatched]
        rfl
      rw [if_pos ⟨hsome, hnext⟩, resumed_of_next hhead hmatched hnext]
      split
      · rename_i hlast
        rw [List.drop_eq_nil_of_le (Nat.le_of_eq hlast.symm), List.map_nil, if_pos List.nil_prefix]
      · rename_i hmore
        rw [ih (Nat.lt_of_le_of_ne hmatched hmore), resumed]
        simp
    · rw [if_neg (fun h => hnext h.2), resumed_of_ne hmatched hnext]
      split
      · rename_i hfirst
        obtain rfl := hfirst.2
        have hone : 1 < (head :: tail).length := by
          -- The pattern is longer than what has been met, and something has been met before this opcode.
          refine Nat.lt_of_le_of_lt (Nat.one_le_iff_ne_zero.2 ?_) hmatched
          rintro rfl
          exact hnext rfl
        rw [ih hone, firstSpelled_of_head, resumed]
        simp
      · rename_i hfirst
        have hother : opcode? ≠ some head := fun h => hfirst ⟨h ▸ rfl, h⟩
        rw [ih (Nat.succ_pos _), resumed_zero, firstSpelled_of_ne hother]

/-- The entries that a search goes through are the instructions with their opcodes. -/
theorem opcodesOf_eq (g : Graph) (ids : List ItemId) :
    g.opcodesOf ids =
      (ids.filter fun id => (g.item id).isOpcodeItem).map fun id => (id, (g.item id).opcode?) := by
  induction ids with
  | nil => rfl
  | cons id rest ih =>
    rw [opcodesOf, List.filterMap_cons, List.filter_cons, Item.isOpcodeItem]
    cases hop : (g.item id).opcodeItem? with
    | none => exact ih
    | some op =>
      rw [if_pos Option.isSome_some, List.map_cons, Item.opcode?, hop]
      exact congrArg _ ih

theorem findPattern?_from (g : Graph) (start : ItemId) (pattern : List Opcode) :
    g.findPattern? (some start) none pattern =
      scanPattern pattern 0 none (g.opcodesOf (g.startingAt start)) := by
  have hrange : g.range (some start) none = g.startingAt start := by
    rw [range]
    exact List.takeWhile_eq_self_iff.2 (by simp)
  rw [findPattern?, hrange]

instance (g : Graph) (pattern : List Opcode) : DecidablePred fun id => g.Begins id pattern :=
  fun id => inferInstanceAs
    (Decidable (pattern.map some <+: (g.instructionsFrom id).map fun other => (g.item other).opcode?))

theorem firstSpelled_cons (g : Graph) (pattern : List Opcode) (id : ItemId) (rest : List ItemId) :
    firstSpelled pattern ((id :: rest).map fun other => (other, (g.item other).opcode?)) =
      if pattern.map some <+: (id :: rest).map fun other => (g.item other).opcode? then some id
      else firstSpelled pattern (rest.map fun other => (other, (g.item other).opcode?)) := by
  have hopcodes : ((rest.map fun other => (other, (g.item other).opcode?)).map Prod.snd) =
      rest.map fun other => (g.item other).opcode? := List.map_map
  rw [List.map_cons, firstSpelled, hopcodes, List.map_cons]

/-- What is spelled is found as the first item with a property that the items have from which on it is spelled. -/
theorem firstSpelled_eq_find? {begins : ItemId → Prop} [DecidablePred begins] {ids : List ItemId}
    (hbegins : ∀ passed id behind, ids = passed ++ id :: behind →
      (begins id ↔ pattern.map some <+: (id :: behind).map fun other => (g.item other).opcode?)) :
    firstSpelled pattern (ids.map fun id => (id, (g.item id).opcode?)) = ids.find? fun id => begins id := by
  induction ids with
  | nil => rfl
  | cons id rest ih =>
    have hrest := ih fun passed other behind hsplit => hbegins (id :: passed) other behind (hsplit ▸ rfl)
    have hhere := hbegins [] id rest rfl
    rw [firstSpelled_cons, List.find?_cons, hrest]
    by_cases hid : begins id
    · rw [if_pos (hhere.1 hid), decide_eq_true hid]
    · rw [if_neg (mt hhere.2 hid), decide_eq_false hid]

/-- Where the instructions from an item on split, the listing splits. -/
theorem Ordered.split_instructionsFrom (hg : g.Ordered) (hstart : start < g.size) {passed behind : List ItemId}
    (h : g.instructionsFrom start = passed ++ id :: behind) :
    ∃ front more, g.order = front ++ id :: more ∧ (g.item id).isOpcodeItem = true ∧
      (more.filter fun other => (g.item other).isOpcodeItem) = behind := by
  obtain ⟨front, after, horder, hfront, -⟩ := hg.split hstart
  rw [instructionsFrom, startingAt_split horder hfront, List.filter_eq_append_iff] at h
  obtain ⟨skipped, rest, hsplit, -, hrest⟩ := h
  obtain ⟨skipped', more, rfl, -, hitem, hmore⟩ := List.filter_eq_cons_iff.1 hrest
  refine ⟨front ++ skipped ++ skipped', more, ?_, hitem, hmore⟩
  rw [horder, hsplit]
  simp

/-- A search finds the first instruction from which on the instructions begin with the pattern. -/
theorem Ordered.findPattern?_eq_find? (hg : g.Ordered) (hstart : start < g.size) (hhead : head ∉ tail) :
    g.findPattern? (some start) none (head :: tail) =
      (g.instructionsFrom start).find? fun id => g.Begins id (head :: tail) := by
  rw [findPattern?_from, scanPattern_eq hhead (Nat.succ_pos _), resumed_zero, opcodesOf_eq]
  refine firstSpelled_eq_find? fun passed id behind hsplit => ?_
  obtain ⟨front, more, horder, hitem, hmore⟩ := hg.split_instructionsFrom hstart hsplit
  rw [Begins, instructionsFrom_split hg horder, List.filter_cons, if_pos hitem, hmore]

theorem Ordered.mem_instructionsFrom (hg : g.Ordered) (hstart : start < g.size) :
    id ∈ g.instructionsFrom start ↔
      (id = start ∨ Precedes g.order start id) ∧ (g.item id).isOpcodeItem = true := by
  rw [instructionsFrom, List.mem_filter, hg.mem_startingAt hstart]

theorem sublist_instructionsFrom (g : Graph) (id : ItemId) : (g.instructionsFrom id).Sublist g.order :=
  List.filter_sublist.trans (List.dropWhile_sublist _)

/-- What a search finds begins with the pattern, and so does nothing between the start and it. -/
theorem Ordered.of_findPattern? (hg : g.Ordered) (hstart : start < g.size) (hhead : head ∉ tail)
    (h : g.findPattern? (some start) none (head :: tail) = some id) :
    id ∈ g.instructionsFrom start ∧ g.Begins id (head :: tail) ∧
      ∀ other ∈ g.instructionsFrom start, g.Begins other (head :: tail) →
        other = id ∨ Precedes g.order id other := by
  rw [hg.findPattern?_eq_find? hstart hhead, List.find?_eq_some_iff_append] at h
  obtain ⟨hbegins, passed, behind, hfrom, hpassed⟩ := h
  have hsub : (id :: behind).Sublist g.order :=
    (hfrom ▸ List.sublist_append_right passed (id :: behind)).trans (g.sublist_instructionsFrom start)
  refine ⟨hfrom ▸ List.mem_append_right _ List.mem_cons_self, of_decide_eq_true hbegins,
    fun other hother hspelled => ?_⟩
  rw [hfrom, List.mem_append, List.mem_cons] at hother
  rcases hother with hother | hother | hother
  · have hnot := hpassed other hother
    rw [decide_eq_true hspelled] at hnot
    cases hnot
  · exact Or.inl hother
  · exact Or.inr (((List.singleton_sublist.2 hother).cons_cons id).trans hsub)

/-! ## What lies ahead of a search -/

/-- The instructions from a cursor on, if there is one. -/
def Ahead (g : Graph) (cursor : Option ItemId) (rest : List ItemId) : Prop :=
  match cursor with
  | some c => c < g.size ∧ g.instructionsFrom c = rest
  | none => rest = []

theorem Ahead.extends {cursor : Option ItemId} {rest : List ItemId} (h : g.Ahead cursor rest)
    (hextends : g.Extends g') (hg : g.Ordered) (hg' : g'.Ordered) : g'.Ahead cursor rest := by
  cases cursor with
  | none => exact h
  | some c =>
    exact ⟨Nat.lt_of_lt_of_le h.1 hextends.size, (hextends.instructionsFrom hg hg' h.1).trans h.2⟩

/-- Behind one of the instructions ahead are those behind it. -/
theorem Ahead.next {cursor : Option ItemId} {passed behind : List ItemId}
    (h : g.Ahead cursor (passed ++ id :: behind)) (hg : g.Ordered) : g.Ahead (g.next? id) behind := by
  cases cursor with
  | none => exact absurd h (by simp [Ahead])
  | some c =>
    obtain ⟨hc, hfrom⟩ := h
    obtain ⟨front, more, horder, -, hmore⟩ := hg.split_instructionsFrom hc hfrom
    rw [next?_split horder (hg.notMem_front horder)]
    cases more with
    | nil => exact hmore.symm
    | cons x more =>
      have hnext : g.order = (front ++ [id]) ++ x :: more := by
        rw [horder, List.append_assoc]
        rfl
      refine ⟨hg.lt_of_mem (hnext ▸ List.mem_append_right _ List.mem_cons_self), ?_⟩
      rw [instructionsFrom_split hg hnext, hmore]

/-- A search finds the first of the instructions ahead that begins with its pattern. -/
theorem Ahead.findPattern? {cursor : Option ItemId} {rest : List ItemId} {head : Opcode} {tail : List Opcode}
    (h : g.Ahead cursor rest) (hg : g.Ordered) (hhead : head ∉ tail) :
    g.findPattern? cursor none (head :: tail) = rest.find? fun id => g.Begins id (head :: tail) := by
  cases cursor with
  | none =>
    rw [show rest = [] from h]
    rfl
  | some c => rw [hg.findPattern?_eq_find? h.1 hhead, h.2]

end Parley.Graph
