import Parley.Proofs.Assembly.Draft
import Parley.Proofs.Text.Numeral
set_option autoImplicit false

/-!
# Operands as written

A number is written with hexadecimal digits behind `0x`, with decimal digits, or with decimal digits behind a minus
sign.  What stands behind `0x` and behind the minus sign is read as a number that may have a sign of its own, so texts
with one sign more are numbers too, and behind two minus signs a number may have 32 bits.  Labels are made of letters,
digits, underscores and points, and begin with no digit.  Every other word where an operand stands is a fault.
-/

namespace Parley.Assembly.Operand

open Text (Numeral)

variable {text digits rest : List Char} {word : UInt16} {c marker : Char}

/-! ## What an operand may be -/

/-- A marker of hexadecimal digits, behind a zero. -/
def IsMarker (c : Char) : Prop := c = 'x' ∨ c = 'X'

/-- The texts of numbers. -/
inductive NumberText : List Char → UInt16 → Prop
  | hex {marker : Char} {digits : List Char} {n : Nat} (hmarker : IsMarker marker) (hdigits : Numeral 16 digits n)
      (hle : n ≤ 0xffff) : NumberText ('0' :: marker :: digits) (UInt16.ofNat n)
  | decimal {digits : List Char} {n : Nat} (hdigits : Numeral 10 digits n) (hle : n ≤ 65535) :
      NumberText digits (UInt16.ofNat n)
  | negative {digits : List Char} {n : Nat} (hdigits : Numeral 10 digits n) (hle : n ≤ 32768) :
      NumberText ('-' :: digits) (UInt16.ofInt (-n))

/-- The texts of numbers in which a sign stands where digits should begin. -/
inductive SignedTwice : List Char → UInt16 → Prop
  | hex {marker : Char} {digits : List Char} {n : Nat} (hmarker : IsMarker marker) (hdigits : Numeral 16 digits n)
      (hle : n ≤ 0xffff) : SignedTwice ('0' :: marker :: '+' :: digits) (UInt16.ofNat n)
  | plus {digits : List Char} {n : Nat} (hdigits : Numeral 10 digits n) (hle : n ≤ 32768) :
      SignedTwice ('-' :: '+' :: digits) (UInt16.ofInt (-n))
  | minus {digits : List Char} {n : Nat} (hdigits : Numeral 10 digits n) (hle : n ≤ 0x80000000) :
      SignedTwice ('-' :: '-' :: digits) (UInt16.ofInt n)

/-- The texts of labels. -/
structure LabelText (text : List Char) : Prop where
  nonempty : text ≠ []
  chars : ∀ c ∈ text, isLabelChar c = true
  first : ∀ c ∈ text.head?, Text.isDecimalDigit c = false

/-! ## By the front of a text -/

theorem word?_eq_some_iff {base : Nat} : Text.word? base digits = some word ↔
    ∃ n, n ≤ 65535 ∧ word = UInt16.ofNat n ∧
      (Numeral base digits n ∨ ∃ behind, digits = '+' :: behind ∧ Numeral base behind n) := by
  simp only [Text.word?, Option.map_eq_some_iff, Text.natural?_eq_some_iff]
  constructor
  · rintro ⟨n, ⟨hle, hdigits⟩, rfl⟩
    exact ⟨n, hle, rfl, hdigits⟩
  · rintro ⟨n, hle, rfl, hdigits⟩
    exact ⟨n, ⟨hle, hdigits⟩, rfl⟩

theorem digit?_marker (h : IsMarker marker) : Text.digit? 10 marker = none := by
  rcases h with rfl | rfl <;> rfl

/-- Behind a zero and a marker stand hexadecimal digits. -/
theorem number_hex_iff (hmarker : IsMarker marker) :
    NumberText ('0' :: marker :: digits) word ∨ SignedTwice ('0' :: marker :: digits) word ↔
      Text.word? 16 digits = some word := by
  rw [word?_eq_some_iff]
  constructor
  · rintro (h | h)
    · cases h with
      | hex _ hdigits hle => exact ⟨_, hle, rfl, Or.inl hdigits⟩
      | decimal hdigits =>
        exact absurd (List.mem_cons_of_mem '0' List.mem_cons_self) (hdigits.notMem (digit?_marker hmarker))
    · cases h with
      | hex _ hdigits hle => exact ⟨_, hle, rfl, Or.inr ⟨_, rfl, hdigits⟩⟩
  · rintro ⟨n, hle, rfl, hdigits | ⟨behind, rfl, hdigits⟩⟩
    · exact Or.inl (.hex hmarker hdigits hle)
    · exact Or.inr (.hex hmarker hdigits hle)

/-- Behind a minus sign stands an integer of 32 bits, bounded from above alone. -/
theorem number_minus_iff :
    NumberText ('-' :: digits) word ∨ SignedTwice ('-' :: digits) word ↔
      ((Text.integer32? digits).filter (· ≤ 0x8000)).map (fun n => UInt16.ofInt (-n)) = some word := by
  simp only [Option.map_eq_some_iff, Option.filter_eq_some_iff, decide_eq_true_iff]
  constructor
  · rintro (h | h)
    · cases h with
      | decimal hdigits => exact absurd List.mem_cons_self (hdigits.notMem (Text.digit?_minus 10))
      | @negative _ n hdigits hle =>
        refine ⟨n, ⟨Text.integer32?_eq_some_iff.2 (Or.inl ⟨n, ?_, rfl⟩), by omega⟩, rfl⟩
        exact Text.natural?_eq_some_iff.2 ⟨by omega, Or.inl hdigits⟩
    · cases h with
      | @plus _ n hdigits hle =>
        refine ⟨n, ⟨Text.integer32?_eq_some_iff.2 (Or.inl ⟨n, ?_, rfl⟩), by omega⟩, rfl⟩
        exact Text.natural?_eq_some_iff.2 ⟨by omega, Or.inr ⟨_, rfl, hdigits⟩⟩
      | @minus _ n hdigits hle =>
        refine ⟨-n, ⟨Text.integer32?_eq_some_iff.2 (Or.inr ⟨_, n, rfl, hdigits, hle, rfl⟩), by omega⟩, ?_⟩
        rw [Int.neg_neg]
  · rintro ⟨_, ⟨hread, hle⟩, rfl⟩
    obtain ⟨n, hn, rfl⟩ | ⟨behind, n, rfl, hdigits, hbits, rfl⟩ := Text.integer32?_eq_some_iff.1 hread
    · obtain ⟨-, hdigits | ⟨behind, rfl, hdigits⟩⟩ := Text.natural?_eq_some_iff.1 hn
      · exact Or.inl (.negative hdigits (by omega))
      · exact Or.inr (.plus hdigits (by omega))
    · rw [Int.neg_neg]
      exact Or.inr (.minus hdigits hbits)

/-- Where neither a marker nor a minus sign stands in front, a number has nothing but decimal digits. -/
theorem number_plain_iff (hhex : ∀ marker rest, IsMarker marker → text ≠ '0' :: marker :: rest)
    (hminus : text.head? ≠ some '-') (hplus : text.head? ≠ some '+') :
    NumberText text word ∨ SignedTwice text word ↔ Text.word? 10 text = some word := by
  rw [word?_eq_some_iff]
  constructor
  · rintro (h | h)
    · cases h with
      | hex hmarker => exact absurd rfl (hhex _ _ hmarker)
      | decimal hdigits hle => exact ⟨_, hle, rfl, Or.inl hdigits⟩
      | negative => exact absurd rfl hminus
    · cases h with
      | hex hmarker => exact absurd rfl (hhex _ _ hmarker)
      | plus => exact absurd rfl hminus
      | minus => exact absurd rfl hminus
  · rintro ⟨n, hle, rfl, hdigits | ⟨behind, rfl, -⟩⟩
    · exact Or.inl (.decimal hdigits hle)
    · exact absurd rfl hplus

/-- A number begins with a digit or a minus sign. -/
theorem first_of_number (h : NumberText (c :: rest) word ∨ SignedTwice (c :: rest) word) :
    Text.isDecimalDigit c = true ∨ c = '-' := by
  rcases h with h | h
  · cases h with
    | hex => exact Or.inl rfl
    | decimal hdigits => exact Or.inl (hdigits.isSome_digit? c List.mem_cons_self)
    | negative => exact Or.inr rfl
  · cases h with
    | hex => exact Or.inl rfl
    | plus => exact Or.inr rfl
    | minus => exact Or.inr rfl

theorem not_labelText_of_digit (hc : Text.isDecimalDigit c = true) : ¬ LabelText (c :: rest) := fun h =>
  Bool.false_ne_true ((h.first c rfl).symm.trans hc)

theorem labelText_cons_iff (hc : Text.isDecimalDigit c = false) :
    LabelText (c :: rest) ↔ (c :: rest).all isLabelChar = true := by
  rw [List.all_eq_true]
  refine ⟨fun h => h.chars, fun h => ⟨List.cons_ne_nil c rest, h, ?_⟩⟩
  rintro _ ⟨⟩
  exact hc

theorem not_labelText_minus : ¬ LabelText ('-' :: rest) := fun h =>
  absurd (h.chars '-' List.mem_cons_self) (by decide)

/-! ## Reading -/

/-- The operand that a text is taken for. -/
def Spelled (text : List Char) : Operand → Prop
  | .value word => NumberText text word ∨ SignedTwice text word
  | .label name => LabelText text ∧ name = String.ofList text

theorem spelled_iff_of_not_labelText {operand : Operand} {number : Option UInt16} (hlabel : ¬ LabelText text)
    (hnumber : ∀ word, Spelled text (.value word) ↔ number = some word) :
    Spelled text operand ↔ number.map .value = some operand := by
  rw [Option.map_eq_some_iff]
  cases operand with
  | value word =>
    rw [hnumber]
    simp
  | label name =>
    constructor
    · exact fun h => absurd h.1 hlabel
    · rintro ⟨_, -, h⟩
      cases h

/-- What is read of a text is what the text is taken for. -/
theorem ofText?_eq_some_iff {operand : Operand} (hne : text ≠ []) :
    ofText? text = some operand ↔ Spelled text operand := by
  unfold ofText?
  split
  · exact (spelled_iff_of_not_labelText (not_labelText_of_digit rfl) fun _ => number_hex_iff (Or.inl rfl)).symm
  · exact (spelled_iff_of_not_labelText (not_labelText_of_digit rfl) fun _ => number_hex_iff (Or.inr rfl)).symm
  · rw [spelled_iff_of_not_labelText not_labelText_minus fun _ => number_minus_iff, Option.map_map]
    rfl
  · exact absurd rfl hne
  · rename_i c rest hx hX hminus
    have hhex : ∀ marker behind, IsMarker marker → c :: rest ≠ '0' :: marker :: behind := by
      rintro _ behind (rfl | rfl) heq
      · exact hx behind (List.cons.inj heq).1 (List.cons.inj heq).2
      · exact hX behind (List.cons.inj heq).1 (List.cons.inj heq).2
    have hminus' : (c :: rest).head? ≠ some '-' := fun h => hminus (Option.some.inj h)
    split
    · rename_i hdigit
      refine (spelled_iff_of_not_labelText (not_labelText_of_digit hdigit) fun _ =>
        number_plain_iff hhex hminus' ?_).symm
      intro h
      obtain rfl := Option.some.inj h
      cases hdigit
    · rename_i hdigit
      have hnumber : ∀ word, ¬ Spelled (c :: rest) (.value word) := fun word h =>
        (first_of_number h).elim hdigit fun h => hminus h
      have hlabel : LabelText (c :: rest) ↔ _ := labelText_cons_iff (eq_false_of_ne_true hdigit)
      cases operand with
      | value word =>
        refine ⟨fun h => ?_, fun h => absurd h (hnumber word)⟩
        obtain ⟨-, h⟩ := Option.ite_none_right_eq_some.1 h
        cases h
      | label name =>
        rw [Option.ite_none_right_eq_some, Spelled, hlabel, Option.some.injEq, Operand.label.injEq, eq_comm (a := name)]

theorem ne_nil_of_mem_words {line : List Char} (h : text ∈ Text.words line) : text ≠ [] := by
  rintro rfl
  exact Bool.false_ne_true (List.mem_filter.1 h).2

theorem parse_eq_error {line : Nat} {fault : AssemblyFault} : Operand.parse line text = .error fault ↔
    fault = .badOperand line (String.ofList text) ∧ ofText? text = none := by
  unfold Operand.parse
  cases ofText? text <;> simp [eq_comm]

/-- A word of a line is an operand with a number exactly if it is the text of a number, be it with a sign too many, and
with a label exactly if it is the text of a label; every other word is a bad operand.  The statement of a line is the
instruction with this operand, where its name asks for one. -/
theorem parse_word (raw : List Char) (hword : text ∈ (Line.ofText raw).words) (line : Nat) :
    (∀ word, Operand.parse line text = .ok (.value word) ↔ NumberText text word ∨ SignedTwice text word) ∧
    (∀ name, Operand.parse line text = .ok (.label name) ↔ LabelText text ∧ name = String.ofList text) ∧
    (∀ fault, Operand.parse line text = .error fault ↔ fault = .badOperand line (String.ofList text) ∧
      ¬ LabelText text ∧ ∀ word, ¬ NumberText text word ∧ ¬ SignedTwice text word) ∧
    ∀ name opcode, (Line.ofText raw).words = [name, text] → (String.ofList name).map Char.toLower ≠ rawMnemonic →
      Opcode.ofMnemonic? (String.ofList name) = some opcode → opcode.takesOperand = true →
      parseStatement line (Line.ofText raw).words =
        (Operand.parse line text).map fun operand => some (.instruction opcode (some operand)) := by
  have hread : ∀ operand, ofText? text = some operand ↔ Spelled text operand := fun _ =>
    ofText?_eq_some_iff (ne_nil_of_mem_words hword)
  refine ⟨fun word => parse_eq_ok.trans (hread _), fun name => parse_eq_ok.trans (hread _), fun fault => ?_, ?_⟩
  · rw [parse_eq_error, Option.eq_none_iff_forall_ne_some]
    refine and_congr_right fun _ => ⟨fun h => ⟨fun hlabel => ?_, fun word => ?_⟩, fun h operand hoperand => ?_⟩
    · exact h (.label (String.ofList text)) ((hread _).2 ⟨hlabel, rfl⟩)
    · exact not_or.1 fun hnumber => h (.value word) ((hread _).2 hnumber)
    · have hspelled := (hread operand).1 hoperand
      cases operand with
      | value word => exact hspelled.elim (h.2 word).1 (h.2 word).2
      | label name => exact h.1 hspelled.1
  · intro name opcode hwords hname hopcode htakes
    rw [hwords]
    simp only [parseStatement, hname, if_false, List.head?_cons, parseInstruction, hopcode, htakes]
    cases Operand.parse line text <;> rfl

theorem parse_word_branch :
    Operand.parse 7 "-32768".toList = .ok (.value 0x8000) ∧
      Operand.parse 7 "+5".toList = .error (.badOperand 7 "+5") ∧
      parseStatement 7 (Line.ofText "top: BEQ loop.end ; on".toList).words =
        .ok (some (.instruction .beq (some (.label "loop.end")))) := by
  have hnumber : NumberText "-32768".toList 0x8000 :=
    .negative (Text.digits?_eq_some_iff.1 (by decide +kernel : _ = some 32768)) (by decide)
  have hlabel : LabelText "loop.end".toList := by
    refine ⟨by decide, List.all_eq_true.1 (by decide), ?_⟩
    rintro _ ⟨⟩
    rfl
  have hsigned : ∀ word, ¬ NumberText "+5".toList word ∧ ¬ SignedTwice "+5".toList word := fun word =>
    not_or.1 fun h => absurd (first_of_number h) (by decide)
  have htarget : "loop.end".toList ∈ (Line.ofText "top: BEQ loop.end ; on".toList).words := by decide +kernel
  have hbranch := parse_word _ htarget 7
  refine ⟨((parse_word "PUSHI -32768".toList (by decide +kernel) 7).1 _).2 (Or.inl hnumber),
    ((parse_word "PUSHI +5".toList (by decide +kernel) 7).2.2.1 _).2
      ⟨rfl, fun h => absurd (h.chars '+' List.mem_cons_self) (by decide), hsigned⟩, ?_⟩
  rw [hbranch.2.2.2 "BEQ".toList .beq (by decide +kernel) (by decide +kernel) (by decide +kernel) rfl,
    (hbranch.2.1 _).2 ⟨hlabel, rfl⟩]
  rfl

/-- Two minus signs are taken. -/
theorem parse_doubleMinus :
    assemble "PUSHI --5" = .ok #[22, 5] ∧ Operand.parse 1 "--5".toList = .ok (.value 5) ∧
      ∀ word, ¬ NumberText "--5".toList word := by
  refine ⟨Fallible.except_toOption_eq_some.1 (by decide +kernel), by decide +kernel, fun word h => ?_⟩
  cases h with
  | decimal hdigits => exact hdigits.notMem (Text.digit?_minus 10) List.mem_cons_self
  | negative hdigits => exact hdigits.notMem (Text.digit?_minus 10) List.mem_cons_self

end Parley.Assembly.Operand
