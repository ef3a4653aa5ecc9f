import Parley.Proofs.Listing.Search
import Parley.Decompile.Function
import Mathlib.Data.Nat.Find
set_option autoImplicit false

/-!
# The first occurrence of a pattern

The instructions from one item on up to another are a list, in which items of other kinds do not show.  A pattern
occurs at a place of this list if its opcodes are those of the instructions from there on.  To look for it at one
place after the other takes many passes; the search in one pass finds the same place if the first opcode of the
pattern does not recur in it, as that of neither boundary of a function does.
-/

namespace Parley.Graph

variable {g : Graph} {id : ItemId} {pattern tail : List Opcode} {head : Opcode} {instructions : List ItemId}
  {start stop : Option ItemId}

/-- The instructions from `start` on up to `stop`, in the order of the listing. -/
def instructionsWithin (g : Graph) (start stop : Option ItemId) : List ItemId :=
  (g.range start stop).filter fun id => (g.item id).isOpcodeItem

/-- The instructions of a list from the one at `place` on begin with the opcodes of a pattern. -/
def OccursAt (g : Graph) (pattern : List Opcode) (instructions : List ItemId) (place : Nat) : Prop :=
  pattern.map some <+: (instructions.drop place).map fun id => (g.item id).opcode?

instance (g : Graph) (pattern : List Opcode) (instructions : List ItemId) :
    DecidablePred (g.OccursAt pattern instructions) :=
  fun place => inferInstanceAs
    (Decidable (pattern.map some <+: (instructions.drop place).map fun id => (g.item id).opcode?))

/-- A pattern occurs at a place of a list and at none before it. -/
structure FirstOccursAt (g : Graph) (pattern : List Opcode) (instructions : List ItemId) (place : Nat) : Prop where
  occurs : g.OccursAt pattern instructions place
  least : ∀ earlier < place, ¬ g.OccursAt pattern instructions earlier

theorem firstOccursAt_zero (h : g.OccursAt pattern instructions 0) : g.FirstOccursAt pattern instructions 0 :=
  ⟨h, fun earlier hearlier => absurd hearlier (Nat.not_lt_zero earlier)⟩

theorem FirstOccursAt.eq_zero {place : Nat} (h : g.FirstOccursAt pattern instructions place)
    (hzero : g.OccursAt pattern instructions 0) : place = 0 := by
  by_contra hne
  exact h.least 0 (Nat.pos_of_ne_zero hne) hzero

/-- What does not occur at the first place occurs behind it as in the rest of the list. -/
theorem firstOccursAt_succ {place : Nat} (hzero : ¬ g.OccursAt pattern (id :: instructions) 0) :
    g.FirstOccursAt pattern (id :: instructions) (place + 1) ↔ g.FirstOccursAt pattern instructions place := by
  constructor
  · intro h
    exact ⟨h.occurs, fun earlier hearlier => h.least (earlier + 1) (Nat.succ_lt_succ hearlier)⟩
  · intro h
    refine ⟨h.occurs, fun earlier hearlier => ?_⟩
    cases earlier with
    | zero => exact hzero
    | succ earlier => exact h.least earlier (Nat.lt_of_succ_lt_succ hearlier)

/-- The first instruction from which on a pattern is spelled stands at the first place where it occurs. -/
theorem firstSpelled_eq_some_iff {found : ItemId} :
    firstSpelled pattern (instructions.map fun id => (id, (g.item id).opcode?)) = some found ↔
      ∃ place, instructions[place]? = some found ∧ g.FirstOccursAt pattern instructions place := by
  induction instructions with
  | nil =>
    constructor
    · intro h
      cases h
    · rintro ⟨place, hfound, -⟩
      cases hfound
  | cons id rest ih =>
    rw [firstSpelled_cons]
    by_cases hzero : pattern.map some <+: (id :: rest).map fun other => (g.item other).opcode?
    · rw [if_pos hzero]
      constructor
      · intro h
        exact ⟨0, h, firstOccursAt_zero hzero⟩
      · rintro ⟨place, hfound, hfirst⟩
        rw [hfirst.eq_zero hzero] at hfound
        exact hfound
    · rw [if_neg hzero, ih]
      constructor
      · rintro ⟨place, hfound, hfirst⟩
        exact ⟨place + 1, hfound, (firstOccursAt_succ hzero).2 hfirst⟩
      · rintro ⟨place, hfound, hfirst⟩
        cases place with
        | zero => exact absurd hfirst.occurs hzero
        | succ place => exact ⟨place, hfound, (firstOccursAt_succ hzero).1 hfirst⟩

/-- The search in one pass finds what the search place by place finds. -/
theorem findPattern?_eq_some_iff (hhead : head ∉ tail) :
    g.findPattern? start stop (head :: tail) = some id ↔
      ∃ place, (g.instructionsWithin start stop)[place]? = some id ∧
        g.FirstOccursAt (head :: tail) (g.instructionsWithin start stop) place := by
  rw [findPattern?, scanPattern_eq hhead (Nat.succ_pos _), resumed_zero, opcodesOf_eq]
  exact firstSpelled_eq_some_iff

theorem OccursAt.lt_length {place : Nat} (h : g.OccursAt (head :: tail) instructions place) :
    place < instructions.length := by
  by_contra hle
  rw [OccursAt, List.drop_eq_nil_of_le (Nat.le_of_not_lt hle)] at h
  exact absurd (List.prefix_nil.1 h) (List.cons_ne_nil _ _)

/-- A pattern that occurs has a first place where it does. -/
theorem OccursAt.exists_first {place : Nat} (h : g.OccursAt pattern instructions place) :
    ∃ first, g.FirstOccursAt pattern instructions first := by
  have hoccurs : ∃ place, g.OccursAt pattern instructions place := ⟨place, h⟩
  exact ⟨Nat.find hoccurs, Nat.find_spec hoccurs, fun earlier hearlier => Nat.find_min hoccurs hearlier⟩

/-- A pattern whose first opcode does not recur in it is found in one pass: for any listing, start and stop, what is
found is the first of the instructions from the start on and before the stop from which on they begin with the opcodes
of the pattern, and nothing is found exactly if there is no such instruction. -/
theorem findPattern?_finds_first (g : Graph) (start stop : Option ItemId) (hhead : head ∉ tail) :
    (∀ id, g.findPattern? start stop (head :: tail) = some id ↔
      ∃ place, (g.instructionsWithin start stop)[place]? = some id ∧
        g.OccursAt (head :: tail) (g.instructionsWithin start stop) place ∧
        ∀ earlier < place, ¬ g.OccursAt (head :: tail) (g.instructionsWithin start stop) earlier) ∧
    (g.findPattern? start stop (head :: tail) = none ↔
      ∀ place, ¬ g.OccursAt (head :: tail) (g.instructionsWithin start stop) place) := by
  refine ⟨fun id => ?_, ?_⟩
  · rw [findPattern?_eq_some_iff hhead]
    constructor
    · rintro ⟨place, hid, hfirst⟩
      exact ⟨place, hid, hfirst.occurs, hfirst.least⟩
    · rintro ⟨place, hid, hoccurs, hleast⟩
      exact ⟨place, hid, hoccurs, hleast⟩
  · rw [Option.eq_none_iff_forall_ne_some]
    constructor
    · intro hnone place hoccurs
      obtain ⟨first, hfirst⟩ := hoccurs.exists_first
      exact hnone _ ((findPattern?_eq_some_iff hhead).2
        ⟨first, List.getElem?_eq_getElem hfirst.occurs.lt_length, hfirst⟩)
    · intro hnone id hid
      obtain ⟨place, -, hfirst⟩ := (findPattern?_eq_some_iff hhead).1 hid
      exact hnone place hfirst.occurs

/-- A prologue with a line of text inside, directly behind an instruction that begins one as well, and an epilogue. -/
def interruptedPrologue : Graph :=
  let code : CodeWords := #[Opcode.pushBp.toWord, Opcode.pushBp.toWord, Opcode.spToBp.toWord, Opcode.pushi.toWord, 0,
    Opcode.addSp.toWord, Opcode.bpToSp.toWord, Opcode.popBp.toWord, Opcode.ret.toWord]
  (ofCode code).insertBefore 2 (.ofKind 2 (.statement (.plain "text")))

/-- The prologue is found where the search starts anew, unless the search stops before the end of it; the epilogue is
found behind it. -/
theorem findPattern?_finds_first_interruptedPrologue :
    Opcode.pushBp ∉ [Opcode.spToBp, .pushi, .addSp] ∧ Opcode.bpToSp ∉ [Opcode.popBp, .ret] ∧
      interruptedPrologue.findPattern? (some 0) none prologue = some 1 ∧
      interruptedPrologue.findPattern? (some 0) (some 4) prologue = none ∧
      interruptedPrologue.findPattern? (some 2) none epilogue = some 5 := by
  have hprologue : Opcode.pushBp ∉ [Opcode.spToBp, .pushi, .addSp] := by decide
  have hepilogue : Opcode.bpToSp ∉ [Opcode.popBp, .ret] := by decide
  have hshort : interruptedPrologue.instructionsWithin (some 0) (some 4) = [0, 1, 2, 3] := by decide
  have hnone : ∀ place < 4, ¬ interruptedPrologue.OccursAt prologue [0, 1, 2, 3] place := by decide
  refine ⟨hprologue, hepilogue, ?_, ?_, ?_⟩
  · exact ((findPattern?_finds_first interruptedPrologue (some 0) none hprologue).1 1).2
      ⟨1, by decide, by decide, by decide⟩
  · refine (findPattern?_finds_first interruptedPrologue (some 0) (some 4) hprologue).2.2 fun place hoccurs => ?_
    rw [hshort] at hoccurs
    exact hnone place hoccurs.lt_length hoccurs
  · exact ((findPattern?_finds_first interruptedPrologue (some 2) none hepilogue).1 5).2
      ⟨3, by decide, by decide, by decide⟩

end Parley.Graph
