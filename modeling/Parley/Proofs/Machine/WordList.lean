import Parley.Machine.Host
import Parley.Proofs.Machine.Stack
set_option autoImplicit false

/-!
# Lists of words in the memory

A list of words stands in the slots from an address on, and a zero ends it.  Nothing says how long it is: a reader
takes one slot after the other until it meets a zero or the slots are at an end.  A stack of at most 65535 slots has
none at the last address, so a reader never comes around to the lowest slot, and its reading ends.  The flags of a
menu are as many words from another address on, and the addresses of both are arguments of the call.
-/

namespace Parley

namespace OperandStack

variable {stack : OperandStack} {address : UInt16} {word : UInt16} {words : List UInt16}

/-- The words in the slots from `address` on. -/
def slotsFrom (stack : OperandStack) (address : UInt16) : List UInt16 := stack.slots.toList.drop address.toNat

/-- The slots from `address` on hold `words`. -/
def HoldsAt (stack : OperandStack) (address : UInt16) (words : List UInt16) : Prop :=
  words <+: stack.slotsFrom address

instance (stack : OperandStack) (address : UInt16) (words : List UInt16) : Decidable (stack.HoldsAt address words) :=
  inferInstanceAs (Decidable (words <+: stack.slotsFrom address))

theorem get_eq_error {index : UInt16} {fault : MachineFault} :
    stack.get index = .error fault ↔ stack.slots.size ≤ index.toNat ∧ fault = .stackOverflow index := by
  unfold get
  split
  · rename_i value hvalue
    have hlt : index.toNat < stack.slots.size := (Array.getElem?_eq_some_iff.1 hvalue).1
    simp [Nat.not_le.2 hlt]
  · rename_i hnone
    have hle : stack.slots.size ≤ index.toNat := Array.getElem?_eq_none_iff.1 hnone
    simp [hle, eq_comm]

theorem lt_size_of_get (h : stack.get address = .ok word) : address.toNat < stack.slots.size :=
  (Array.getElem?_eq_some_iff.1 (get_eq_ok.1 h)).1

/-- No address is behind the last slot of a stack that has fewer slots than there are addresses. -/
theorem toNat_succ_of_get (hsize : stack.slots.size ≤ 65535) (h : stack.get address = .ok word) :
    (address + 1).toNat = address.toNat + 1 := by
  have hlt : address.toNat < stack.slots.size := lt_size_of_get h
  have hmod : (address + 1).toNat = (address.toNat + 1) % 2 ^ 16 := UInt16.toNat_add _ _
  omega

theorem slotsFrom_of_ok (hsize : stack.slots.size ≤ 65535) (h : stack.get address = .ok word) :
    stack.slotsFrom address = word :: stack.slotsFrom (address + 1) := by
  have hlt : address.toNat < stack.slots.toList.length := lt_size_of_get h
  have hword : stack.slots.toList[address.toNat] = word := by
    apply Option.some.inj
    rw [← List.getElem?_eq_getElem hlt, Array.getElem?_toList]
    exact get_eq_ok.1 h
  rw [slotsFrom, slotsFrom, List.drop_eq_getElem_cons hlt, hword, toNat_succ_of_get hsize h]

theorem slotsFrom_of_error {fault : MachineFault} (h : stack.get address = .error fault) :
    stack.slotsFrom address = [] :=
  List.drop_eq_nil_of_le (get_eq_error.1 h).1

theorem mem_slotsFrom : word ∈ stack.slotsFrom address ↔
    ∃ slot, address.toNat ≤ slot ∧ stack.slots[slot]? = some word := by
  rw [slotsFrom, List.mem_iff_getElem?]
  constructor
  · rintro ⟨offset, hword⟩
    rw [List.getElem?_drop, Array.getElem?_toList] at hword
    exact ⟨address.toNat + offset, Nat.le_add_right _ _, hword⟩
  · rintro ⟨slot, hle, hword⟩
    refine ⟨slot - address.toNat, ?_⟩
    rw [List.getElem?_drop, Array.getElem?_toList, Nat.add_sub_of_le hle]
    exact hword

/-! ## The list at an address -/

/-- The first address from `address` on that has no slot. -/
def endFrom (stack : OperandStack) (address : UInt16) : UInt16 :=
  if stack.slots.size ≤ address.toNat then address else UInt16.ofNat stack.slots.size

/-- The words from `address` on in front of the first zero there, which is missing if the slots end first. -/
def listFrom (stack : OperandStack) (address : UInt16) : Except MachineFault (List UInt16) :=
  if 0 ∈ stack.slotsFrom address then .ok ((stack.slotsFrom address).takeWhile (· ≠ 0))
  else .error (.stackOverflow (stack.endFrom address))

theorem endFrom_succ (hsize : stack.slots.size ≤ 65535) (h : stack.get address = .ok word) :
    stack.endFrom (address + 1) = stack.endFrom address := by
  have hlt : address.toNat < stack.slots.size := lt_size_of_get h
  have hsucc : (address + 1).toNat = address.toNat + 1 := toNat_succ_of_get hsize h
  rw [endFrom, endFrom, if_neg (Nat.not_le.2 hlt)]
  split
  · rename_i hle
    apply UInt16.toNat_inj.1
    rw [UInt16.toNat_ofNat_of_lt' (Nat.lt_succ_of_le hsize)]
    omega
  · rfl

/-- A list begins with the word at its address, and the rest of it is the list behind. -/
theorem listFrom_eq (hsize : stack.slots.size ≤ 65535) (address : UInt16) :
    stack.listFrom address = (stack.get address).bind fun word =>
      if word = 0 then .ok [] else (stack.listFrom (address + 1)).map (word :: ·) := by
  cases hget : stack.get address with
  | error fault =>
    obtain ⟨hle, rfl⟩ := get_eq_error.1 hget
    rw [listFrom, slotsFrom_of_error hget, if_neg List.not_mem_nil, endFrom, if_pos hle]
    rfl
  | ok word =>
    have hbind {f : UInt16 → Except MachineFault (List UInt16)} : (Except.ok word).bind f = f word := rfl
    rw [hbind, listFrom, slotsFrom_of_ok hsize hget]
    by_cases hzero : word = 0
    · simp [hzero]
    · have hmem : 0 ∈ word :: stack.slotsFrom (address + 1) ↔ 0 ∈ stack.slotsFrom (address + 1) := by
        simp [Ne.symm hzero]
      rw [if_neg hzero, listFrom, endFrom_succ hsize hget]
      simp only [hmem]
      split
      · simp [hzero, Except.map]
      · rfl

theorem takeWhile_of_notMem {behind : List UInt16} (h : 0 ∉ words) :
    (words ++ 0 :: behind).takeWhile (· ≠ 0) = words := by
  have hwords : ∀ word ∈ words, decide (word ≠ 0) = true := fun word hword =>
    decide_eq_true fun hzero => h (hzero ▸ hword)
  rw [List.takeWhile_append_of_pos hwords]
  simp

theorem listFrom_eq_ok : stack.listFrom address = .ok words ↔ 0 ∉ words ∧ stack.HoldsAt address (words ++ [0]) := by
  unfold listFrom HoldsAt
  constructor
  · intro h
    split at h
    · rename_i hzero
      obtain ⟨front, behind, hslots, hfront⟩ := List.eq_append_cons_of_mem hzero
      rw [hslots, takeWhile_of_notMem hfront] at h
      cases h
      exact ⟨hfront, behind, by rw [hslots, List.append_assoc]; rfl⟩
    · cases h
  · rintro ⟨hwords, behind, hslots⟩
    rw [List.append_assoc] at hslots
    have hzero : 0 ∈ stack.slotsFrom address := hslots ▸ List.mem_append_right _ List.mem_cons_self
    rw [if_pos hzero, ← hslots]
    exact congrArg _ (takeWhile_of_notMem hwords)

theorem listFrom_eq_error {fault : MachineFault} : stack.listFrom address = .error fault ↔
    0 ∉ stack.slotsFrom address ∧ fault = .stackOverflow (stack.endFrom address) := by
  unfold listFrom
  split
  · rename_i hzero
    simp [hzero]
  · rename_i hzero
    simp [hzero, eq_comm]

/-! ## Reading -/

/-- Where the reading of a list stands: the slot that comes next, and the words read so far. -/
structure Reading where
  next : UInt16
  words : List UInt16

/-- One round of a reading.  It ends at a zero and where there is no slot; any other word belongs to the list. -/
def Reading.round (stack : OperandStack) (reading : Reading) :
    Except MachineFault (List UInt16) ⊕ Reading :=
  match stack.get reading.next with
  | .error fault => .inl (.error fault)
  | .ok word =>
    if word = 0 then .inl (.ok reading.words) else .inr ⟨reading.next + 1, reading.words ++ [word]⟩

/-- What a reading ends with, if it ends within `rounds` rounds. -/
def Reading.result? (stack : OperandStack) : Nat → Reading → Option (Except MachineFault (List UInt16))
  | 0, _ => none
  | rounds + 1, reading =>
    match reading.round stack with
    | .inl result => some result
    | .inr reading => reading.result? stack rounds

/-- Reading ends behind the last slot at the latest, with the list added to what has been read. -/
theorem Reading.result?_eq (hsize : stack.slots.size ≤ 65535) {rounds : Nat} {reading : Reading}
    (hrounds : stack.slots.size - reading.next.toNat < rounds) :
    reading.result? stack rounds = some ((stack.listFrom reading.next).map (reading.words ++ ·)) := by
  induction rounds generalizing reading with
  | zero => exact absurd hrounds (Nat.not_lt_zero _)
  | succ rounds ih =>
    rw [result?, round, listFrom_eq hsize]
    cases hget : stack.get reading.next with
    | error fault => rfl
    | ok word =>
      dsimp only [Except.bind]
      by_cases hzero : word = 0
      · rw [if_pos hzero, if_pos hzero]
        simp [Except.map]
      · have hlt : reading.next.toNat < stack.slots.size := lt_size_of_get hget
        have hsucc : (reading.next + 1).toNat = reading.next.toNat + 1 := toNat_succ_of_get hsize hget
        have hfewer : stack.slots.size - (reading.next + 1).toNat < rounds := by omega
        rw [if_neg hzero, if_neg hzero]
        refine (@ih ⟨reading.next + 1, reading.words ++ [word]⟩ hfewer).trans ?_
        cases stack.listFrom (reading.next + 1) <;> simp [Except.map]

end OperandStack

namespace IntrinsicCall

open OperandStack Fallible

variable {stack : OperandStack} {call : IntrinsicCall}

/-- The fuel of the search for the end of a list does not run out. -/
theorem wordsFrom_eq (hsize : stack.slots.size ≤ 65535) {fuel : Nat} {address : UInt16}
    (hfuel : stack.slots.size - address.toNat < fuel) : wordsFrom stack fuel address = stack.listFrom address := by
  induction fuel generalizing address with
  | zero => exact absurd hfuel (Nat.not_lt_zero _)
  | succ fuel ih =>
    rw [wordsFrom, listFrom_eq hsize]
    cases hget : stack.get address with
    | error fault => rfl
    | ok word =>
      have hlt : address.toNat < stack.slots.size := lt_size_of_get hget
      have hsucc : (address + 1).toNat = address.toNat + 1 := toNat_succ_of_get hsize hget
      dsimp only [Except.bind]
      rw [ih (by omega)]

theorem wordList_eq (hsize : call.stack.slots.size ≤ 65535) (address : UInt16) :
    call.wordList address = call.stack.listFrom address :=
  wordsFrom_eq hsize (Nat.lt_succ_of_le (Nat.sub_le _ _))

/-! ## Flags -/

/-- The answers whose flags are not zero, in their order. -/
def flagged (answers flags : List UInt16) : List UInt16 :=
  ((answers.zip flags).filter fun entry => entry.2 ≠ 0).map Prod.fst

theorem keepFlagged_eq_ok (hsize : stack.slots.size ≤ 65535) {address : UInt16} {answers offered : List UInt16} :
    keepFlagged stack address answers = .ok offered ↔
      ∃ flags, flags.length = answers.length ∧ stack.HoldsAt address flags ∧ offered = flagged answers flags := by
  induction answers generalizing address offered with
  | nil =>
    constructor
    · intro h
      cases h
      exact ⟨[], rfl, List.nil_prefix, rfl⟩
    · rintro ⟨flags, -, -, rfl⟩
      rfl
  | cons answer rest ih =>
    rw [keepFlagged]
    constructor
    · intro h
      obtain ⟨flag, hget, h⟩ := except_bind_eq_ok.1 h
      obtain ⟨kept, hkept, h⟩ := except_bind_eq_ok.1 h
      cases h
      obtain ⟨flags, hlength, hflags, rfl⟩ := ih.1 hkept
      refine ⟨flag :: flags, congrArg (· + 1) hlength, ?_, ?_⟩
      · rw [HoldsAt, slotsFrom_of_ok hsize hget]
        exact (List.prefix_cons_inj flag).2 hflags
      · by_cases hzero : flag = 0 <;> simp [flagged, hzero]
    · rintro ⟨flags, hlength, hflags, rfl⟩
      cases flags with
      | nil => cases hlength
      | cons flag flags =>
        cases hget : stack.get address with
        | error fault =>
          rw [HoldsAt, slotsFrom_of_error hget] at hflags
          exact absurd (List.prefix_nil.1 hflags) (List.cons_ne_nil _ _)
        | ok word =>
          rw [HoldsAt, slotsFrom_of_ok hsize hget, List.cons_prefix_cons] at hflags
          obtain ⟨rfl, hflags⟩ := hflags
          have hkept := ih.2 ⟨flags, Nat.succ.inj hlength, hflags, rfl⟩
          refine except_bind_eq_ok.2 ⟨flag, rfl, except_bind_eq_ok.2 ⟨_, hkept, ?_⟩⟩
          by_cases hzero : flag = 0 <;> simp [flagged, hzero, pure, Except.pure]

/-! ## Arguments -/

/-- An argument lies below the stack pointer, by its number and one more, if the stack goes down that far.  Addresses
wrap around, so an argument 65535 would lie at the stack pointer itself. -/
theorem arg_eq {index : UInt16} (hindex : index.toNat < 65535) : call.arg index =
    if call.stack.sp = emptySp ∨ call.stack.sp.toNat < index.toNat + 1 then
      .error (.stackUnderflow (call.stack.sp - 1 - index))
    else call.stack.get (UInt16.ofNat (call.stack.sp.toNat - (index.toNat + 1))) := by
  unfold arg
  dsimp only
  by_cases hempty : call.stack.sp = emptySp
  · rw [if_pos (Or.inl hempty), depth_emptySp hempty, if_neg (Nat.not_lt_zero _)]
  · have hlt : call.stack.sp.toNat < 2 ^ 16 := call.stack.sp.toNat_lt
    have hpred : (call.stack.sp - 1).toNat = (2 ^ 16 - 1 + call.stack.sp.toNat) % 2 ^ 16 := UInt16.toNat_sub _ _
    have hslot : (call.stack.sp - 1 - index).toNat =
        (2 ^ 16 - index.toNat + (call.stack.sp - 1).toNat) % 2 ^ 16 := UInt16.toNat_sub _ _
    rw [depth_of_ne_emptySp hempty]
    by_cases hdeep : call.stack.sp.toNat < index.toNat + 1
    · rw [if_pos (Or.inr hdeep), if_neg (by omega)]
    · have hbelow : (call.stack.sp - 1 - index).toNat = call.stack.sp.toNat - (index.toNat + 1) := by omega
      rw [if_neg (not_or.2 ⟨hempty, hdeep⟩), if_pos (by omega), ← hbelow, UInt16.ofNat_toNat]

theorem arg_underflows_iff {index : UInt16} (hindex : index.toNat < 65535) :
    (∃ slot, call.arg index = .error (.stackUnderflow slot)) ↔
      call.stack.sp = emptySp ∨ call.stack.sp.toNat < index.toNat + 1 := by
  rw [arg_eq hindex]
  split
  · rename_i hdeep
    exact ⟨fun _ => hdeep, fun _ => ⟨_, rfl⟩⟩
  · rename_i hdeep
    refine ⟨?_, fun h => absurd h hdeep⟩
    rintro ⟨slot, hget⟩
    cases (get_eq_error.1 hget).2

theorem exists_arg (hstack : call.stack.Bounded call.stack.slots.size) {index : UInt16}
    (hindex : index.toNat < 65535)
    (hdeep : ¬ (call.stack.sp = emptySp ∨ call.stack.sp.toNat < index.toNat + 1)) :
    ∃ value, call.stack.slots[call.stack.sp.toNat - (index.toNat + 1)]? = some value ∧
      call.arg index = .ok value := by
  have hsp : call.stack.sp.toNat < call.stack.slots.size := hstack.sp.resolve_left fun h => hdeep (Or.inl h)
  have hlt : call.stack.sp.toNat - (index.toNat + 1) < call.stack.slots.size := Nat.lt_of_le_of_lt (Nat.sub_le _ _) hsp
  have hword : call.stack.sp.toNat - (index.toNat + 1) < 2 ^ 16 :=
    Nat.lt_of_le_of_lt (Nat.sub_le _ _) call.stack.sp.toNat_lt
  refine ⟨_, Array.getElem?_eq_getElem hlt, ?_⟩
  rw [arg_eq hindex, if_neg hdeep, get_eq_ok, UInt16.toNat_ofNat_of_lt' hword]
  exact Array.getElem?_eq_getElem hlt

/-! ## Menus -/

theorem wordList_overflows_iff (hsize : call.stack.slots.size ≤ 65535) {address : UInt16} :
    (∃ index, call.wordList address = .error (.stackOverflow index)) ↔
      ∀ slot, address.toNat ≤ slot → call.stack.slots[slot]? ≠ some 0 := by
  have hfound : (∃ index, call.wordList address = .error (.stackOverflow index)) ↔
      0 ∉ call.stack.slotsFrom address := by
    simp only [wordList_eq hsize, listFrom_eq_error, MachineFault.stackOverflow.injEq, exists_and_left, exists_eq,
      and_true]
  rw [hfound, mem_slotsFrom]
  constructor
  · intro hnone slot hle hzero
    exact hnone ⟨slot, hle, hzero⟩
  · rintro hnone ⟨slot, hle, hzero⟩
    exact hnone slot hle hzero

theorem flaggedMenuAnswers_eq_ok (hsize : call.stack.slots.size ≤ 65535) {offered : List UInt16} :
    call.flaggedMenuAnswers = .ok offered ↔
      ∃ answersAt flagsAt answers flags, call.arg 0 = .ok answersAt ∧ call.arg 1 = .ok flagsAt ∧
        call.wordList answersAt = .ok answers ∧ flags.length = answers.length ∧
        call.stack.HoldsAt flagsAt flags ∧ offered = flagged answers flags := by
  unfold flaggedMenuAnswers menuAnswers
  constructor
  · intro h
    obtain ⟨answers, hanswers, h⟩ := except_bind_eq_ok.1 h
    obtain ⟨answersAt, hanswersAt, hanswers⟩ := except_bind_eq_ok.1 hanswers
    obtain ⟨flagsAt, hflagsAt, h⟩ := except_bind_eq_ok.1 h
    obtain ⟨flags, hlength, hflags, hoffered⟩ := (keepFlagged_eq_ok hsize).1 h
    exact ⟨answersAt, flagsAt, answers, flags, hanswersAt, hflagsAt, hanswers, hlength, hflags, hoffered⟩
  · rintro ⟨answersAt, flagsAt, answers, flags, hanswersAt, hflagsAt, hanswers, hlength, hflags, hoffered⟩
    have hkept : keepFlagged call.stack flagsAt answers = .ok offered :=
      (keepFlagged_eq_ok hsize).2 ⟨flags, hlength, hflags, hoffered⟩
    exact except_bind_eq_ok.2 ⟨answers, except_bind_eq_ok.2 ⟨answersAt, hanswersAt, hanswers⟩,
      except_bind_eq_ok.2 ⟨flagsAt, hflagsAt, hkept⟩⟩

/-- In a stack of at most 65535 slots, reading a list ends within one round more than there are slots from its address
on, and gives what the call gives.  The call gives the words that stand there with a zero behind them and none among
them, or a fault exactly if no slot from the address on holds a zero.  A menu with flags offers the answers listed at
its first argument, in their order, whose flags from its second argument on are not zero.  An argument is found as far
below the stack pointer as its number says, and one more, and is missing exactly if the stack does not go down that
far. -/
theorem menu_lists_exact (call : IntrinsicCall) (hsize : call.stack.slots.size ≤ 65535) :
    (∀ address : UInt16,
      (∀ rounds, call.stack.slots.size - address.toNat < rounds →
        (Reading.mk address []).result? call.stack rounds = some (call.wordList address)) ∧
      (∀ words, call.wordList address = .ok words ↔ 0 ∉ words ∧ call.stack.HoldsAt address (words ++ [0])) ∧
      ((∃ index, call.wordList address = .error (.stackOverflow index)) ↔
        ∀ slot, address.toNat ≤ slot → call.stack.slots[slot]? ≠ some 0)) ∧
    (∀ offered, call.flaggedMenuAnswers = .ok offered ↔
      ∃ answersAt flagsAt answers flags, call.arg 0 = .ok answersAt ∧ call.arg 1 = .ok flagsAt ∧
        call.wordList answersAt = .ok answers ∧ flags.length = answers.length ∧
        call.stack.HoldsAt flagsAt flags ∧ offered = flagged answers flags) ∧
    ∀ index : UInt16, index.toNat < 65535 →
      ((∃ slot, call.arg index = .error (.stackUnderflow slot)) ↔
        call.stack.sp = emptySp ∨ call.stack.sp.toNat < index.toNat + 1) ∧
      (call.stack.Bounded call.stack.slots.size →
        ¬ (call.stack.sp = emptySp ∨ call.stack.sp.toNat < index.toNat + 1) →
        ∃ value, call.stack.slots[call.stack.sp.toNat - (index.toNat + 1)]? = some value ∧
          call.arg index = .ok value) := by
  refine ⟨fun address => ⟨fun rounds hrounds => ?_, fun words => ?_, wordList_overflows_iff hsize⟩,
    fun offered => flaggedMenuAnswers_eq_ok hsize,
    fun index hindex => ⟨arg_underflows_iff hindex, fun hstack => exists_arg hstack hindex⟩⟩
  · rw [Reading.result?_eq hsize hrounds, wordList_eq hsize]
    cases call.stack.listFrom address <;> rfl
  · rw [wordList_eq hsize, listFrom_eq_ok]

/-- A call with two arguments on a stack of twelve slots: from slot 1 on the answers 5, 6 and 7, and behind them their
flags. -/
def flaggedCall : IntrinsicCall where
  id := 0
  name := "babl_fmenu"
  pos := 0
  stack := ⟨#[9, 5, 6, 7, 0, 1, 0, 2, 5, 1, 2, 8], 10⟩
  strings := .ofList []

/-- The answers 5 and 7 are offered, since the flag of 6 is zero.  From slot 7 on there is no zero, and ten slots lie
below the stack pointer. -/
theorem menu_lists_exact_flaggedCall :
    flaggedCall.stack.slots.size ≤ 65535 ∧ flaggedCall.flaggedMenuAnswers = .ok [5, 7] ∧
      (Reading.mk 1 []).result? flaggedCall.stack 12 = some (.ok [5, 6, 7]) ∧
      (∃ index, flaggedCall.wordList 7 = .error (.stackOverflow index)) ∧
      (∃ slot, flaggedCall.arg 10 = .error (.stackUnderflow slot)) ∧
      ∃ value, flaggedCall.stack.slots[9]? = some value ∧ flaggedCall.arg 0 = .ok value := by
  have hsize : flaggedCall.stack.slots.size ≤ 65535 := by decide
  obtain ⟨hlists, hmenu, hargs⟩ := menu_lists_exact flaggedCall hsize
  have hlisted : flaggedCall.wordList 1 = .ok [5, 6, 7] := ((hlists 1).2.1 [5, 6, 7]).2 (by decide)
  have hread : (Reading.mk 1 []).result? flaggedCall.stack 12 = some (flaggedCall.wordList 1) :=
    (hlists 1).1 12 (by decide)
  refine ⟨hsize, ?_, hlisted ▸ hread, ?_, (hargs 10 (by decide)).1.2 (by decide),
    (hargs 0 (by decide)).2 ⟨rfl, Or.inr (by decide)⟩ (by decide)⟩
  · exact (hmenu [5, 7]).2 ⟨1, 5, [5, 6, 7], [1, 0, 2], rfl, rfl, hlisted, rfl, by decide, by decide⟩
  · have hslots : ∀ slot < 12, 7 ≤ slot → flaggedCall.stack.slots[slot]? ≠ some 0 := by decide
    refine (hlists 7).2.2.2 fun slot hle hzero => hslots slot ?_ hle hzero
    exact (Array.getElem?_eq_some_iff.1 hzero).1

end IntrinsicCall

end Parley
