import Parley.Machine.Step
import Parley.Proofs.Source.Rendering
set_option autoImplicit false

/-!
# Reading of expressions

A reader for the texts of expressions.  Signs bind as tightly as the instruction set says, binary ones of
the same tightness to the left, and parentheses group.  What is read of a text that was written with
explicit parentheses is a matter of its grouping alone.
-/

namespace Parley.Source

/-! ## What is read -/

/-- An expression as it is read. -/
inductive Reading where
  | number (value : UInt16)
  | name (text : String)
  | unary (opcode : UnaryOpcode) (operand : Reading)
  | binary (opcode : BinaryOpcode) (left right : Reading)

/-- The value of what is read where names stand for words; there is none if a divisor is zero. -/
def Reading.value? (words : String → UInt16) : Reading → Option UInt16
  | number value => some value
  | name text => some (words text)
  | unary opcode operand => (operand.value? words).map (Machine.evalUnary opcode)
  | binary opcode left right =>
    (left.value? words).bind fun x =>
      (right.value? words).bind fun y => Machine.evalBinary opcode x y

/-! ## Tokens -/

/-- A piece of a text. -/
inductive Token where
  /-- A number or a name. -/
  | word (text : List Char)
  | sign (text : List Char)
  | opening
  | closing
  deriving DecidableEq

/-- Whether two characters make one sign. -/
def isDoubleSign (first second : Char) : Bool :=
  [['=', '='], ['!', '='], ['<', '='], ['>', '='], ['&', '&'], ['|', '|']].contains [first, second]

/-- A character of a word in front of a text with its tokens. -/
def prependToWord (c : Char) (text : List Char) (tokens : List Token) : List Token :=
  match text.head?.filter isWordChar, tokens with
  | some _, .word rest :: tokens => .word (c :: rest) :: tokens
  | _, _ => .word [c] :: tokens

/-- The tokens of a text.  A word goes on as far as it can. -/
def tokensOf : List Char → List Token
  | [] => []
  | c :: text =>
    if c = ' ' then tokensOf text
    else if c = '(' then .opening :: tokensOf text
    else if c = ')' then .closing :: tokensOf text
    else if isWordChar c then prependToWord c text (tokensOf text)
    else match text with
      | [] => [.sign [c]]
      | d :: rest =>
        if isDoubleSign c d then .sign [c, d] :: tokensOf rest
        else .sign [c] :: tokensOf (d :: rest)

/-! ## The reader -/

/-- The number or name that a word is. -/
def readWord (text : List Char) : Reading :=
  if text.all Char.isDigit then .number (UInt16.ofNat (Nat.ofDigitChars 10 text 0))
  else .name (String.ofList text)

/-- The binary operator with a sign. -/
def binarySign? (text : List Char) : Option BinaryOpcode :=
  Opcode.all.findSome? fun opcode =>
    if h : opcode.opcodeClass = .binary ∧ opcode.operatorText.toList = text then some ⟨opcode, h.1⟩
    else none

/-- The unary operator with a sign. -/
def unarySign? (text : List Char) : Option UnaryOpcode :=
  Opcode.all.findSome? fun opcode =>
    if h : opcode.opcodeClass = .unary ∧ opcode.operatorText.toList = text then some ⟨opcode, h.1⟩
    else none

/-- What waits for an operand. -/
inductive Pending where
  | unary (opcode : UnaryOpcode)
  | binary (left : Reading) (opcode : BinaryOpcode)
  | group

/-- The unary operators that wait for an operand take it. -/
def settleUnary : List Pending → Reading → List Pending × Reading
  | .unary opcode :: pending, operand => settleUnary pending (.unary opcode operand)
  | pending, operand => (pending, operand)

/-- The binary operators that wait for an operand take it if they bind at least as tightly as `level`. -/
def settle (level : Nat) : List Pending → Reading → List Pending × Reading
  | .binary left opcode :: pending, operand =>
    if level ≤ opcode.1.precedence then settle level pending (.binary opcode left operand)
    else (.binary left opcode :: pending, operand)
  | pending, operand => (pending, operand)

/-- How far the reader is: what waits for an operand, and the operand if it is there. -/
inductive ReaderState where
  | wanting (pending : List Pending)
  | having (pending : List Pending) (operand : Reading)

namespace ReaderState

/-- An operand is there. -/
def found (pending : List Pending) (operand : Reading) : ReaderState :=
  let (pending, operand) := settleUnary pending operand
  having pending operand

/-- The reader takes a token. -/
def next : ReaderState → Token → Option ReaderState
  | wanting pending, .word text => some (found pending (readWord text))
  | wanting pending, .opening => some (wanting (.group :: pending))
  | wanting pending, .sign text => (unarySign? text).map fun opcode => wanting (.unary opcode :: pending)
  | wanting _, .closing => none
  | having pending operand, .sign text =>
    (binarySign? text).map fun opcode =>
      let (pending, left) := settle opcode.1.precedence pending operand
      wanting (.binary left opcode :: pending)
  | having pending operand, .closing =>
    match settle 0 pending operand with
    | (.group :: pending, operand) => some (found pending operand)
    | _ => none
  | having _ _, _ => none

/-- What was read at the end of a text. -/
def finish : ReaderState → Option Reading
  | having pending operand =>
    match settle 0 pending operand with
    | ([], operand) => some operand
    | _ => none
  | wanting _ => none

end ReaderState

/-- The expression that a text is. -/
def readText (text : List Char) : Option Reading :=
  ((tokensOf text).foldlM ReaderState.next (.wanting [])).bind ReaderState.finish

/-! ## Texts with explicit parentheses -/

/-- An expression as it is written. -/
inductive Written where
  | number (value : UInt16)
  | name (text : String)
  | unary (opcode : UnaryOpcode) (operand : Written)
  | binary (opcode : BinaryOpcode) (left right : Written)
  /-- An expression in parentheses. -/
  | group (inner : Written)

namespace Written

/-- The text. -/
def text : Written → String
  | number value => Text.decimal value
  | name text => text
  | unary opcode operand => opcode.1.operatorText ++ operand.text
  | binary opcode left right => left.text ++ " " ++ opcode.1.operatorText ++ " " ++ right.text
  | group inner => "(" ++ inner.text ++ ")"

/-- How tightly the outermost operator binds that is not in parentheses. -/
def binds : Written → Nat
  | unary _ _ => unaryPrecedence
  | binary opcode _ _ => opcode.1.precedence
  | _ => atomPrecedence

/-- No operand binds looser than its operator, and names are identifiers. -/
def Fits : Written → Prop
  | number _ => True
  | name text => isIdentifier text.toList = true
  | unary _ operand => unaryPrecedence ≤ operand.binds ∧ operand.Fits
  | binary opcode left right => (opcode.1.precedence ≤ left.binds ∧ opcode.1.precedence ≤ right.binds) ∧
      left.Fits ∧ right.Fits
  | group inner => inner.Fits

/-- The tokens of the text. -/
def tokens : Written → List Token
  | number value => [.word (Text.decimal value).toList]
  | name text => [.word text.toList]
  | unary opcode operand => .sign opcode.1.operatorText.toList :: operand.tokens
  | binary opcode left right =>
    left.tokens ++ .sign opcode.1.operatorText.toList :: right.tokens
  | group inner => .opening :: (inner.tokens ++ [.closing])

/-- What stands left of an expression takes it as its right operand. -/
def close : Option (Reading × BinaryOpcode) → Reading → Reading
  | none, right => right
  | some (left, opcode), right => .binary opcode left right

/-- Whether an operator binds exactly as tightly as the one left of it. -/
def ties (left : Option (Reading × BinaryOpcode)) (opcode : BinaryOpcode) : Bool :=
  left.any fun (_, other) => other.1.precedence = opcode.1.precedence

/-- What is read where an operand and its operator may stand to the left: an operator that binds exactly as
tightly as that one takes the result of it as its own left operand. -/
def readBehind : Written → Option (Reading × BinaryOpcode) → Reading
  | number value, left => close left (.number value)
  | name text, left => close left (.name text)
  | unary opcode operand, left => close left (.unary opcode (operand.readBehind none))
  | group inner, left => close left (inner.readBehind none)
  | binary opcode first second, left =>
    if ties left opcode then second.readBehind (some (first.readBehind left, opcode))
    else close left (second.readBehind (some (first.readBehind none, opcode)))

end Written

/-! ## Tokens of a text -/

/-- The text does not go on with a word. -/
def EndsWord (text : List Char) : Prop := ∀ c ∈ text.head?, isWordChar c = false

theorem tokensOf_word {word : List Char} (hne : word ≠ []) (hword : ∀ c ∈ word, isWordChar c = true)
    {text : List Char} (htext : EndsWord text) :
    tokensOf (word ++ text) = .word word :: tokensOf text := by
  induction word with
  | nil => exact absurd rfl hne
  | cons c rest ih =>
    have hc := hword c List.mem_cons_self
    have hblank : c ≠ ' ' := fun he => by rw [he] at hc; exact absurd hc (by decide)
    have hopening : c ≠ '(' := fun he => by rw [he] at hc; exact absurd hc (by decide)
    have hclosing : c ≠ ')' := fun he => by rw [he] at hc; exact absurd hc (by decide)
    rw [List.cons_append, tokensOf.eq_def]
    simp only [if_neg hblank, if_neg hopening, if_neg hclosing, if_pos hc]
    cases rest with
    | nil =>
      have hfilter : text.head?.filter isWordChar = none := by
        rw [Option.filter_eq_none_iff]
        intro d hd
        rw [htext d hd]
        exact Bool.false_ne_true
      simp [prependToWord, hfilter]
    | cons d rest =>
      have hrest := ih (List.cons_ne_nil _ _) fun other hother =>
        hword other (List.mem_cons_of_mem _ hother)
      have hd := hword d (List.mem_cons_of_mem _ List.mem_cons_self)
      rw [hrest]
      simp [prependToWord, Option.filter, hd]

theorem tokensOf_sign {c : Char} {text : List Char} (hc : c = '-' ∨ c = '!')
    (htext : ∀ d ∈ text.head?, d ≠ '=') : tokensOf (c :: text) = .sign [c] :: tokensOf text := by
  cases text with
  | nil => rcases hc with rfl | rfl <;> rfl
  | cons d rest =>
    have hd : d ≠ '=' := htext d rfl
    have hdouble : isDoubleSign c d = false := by
      rcases hc with rfl | rfl <;> simp [isDoubleSign, hd]
    rw [tokensOf.eq_def]
    rcases hc with rfl | rfl <;> simp [hdouble, isWordChar]

theorem tokensOf_blank (text : List Char) : tokensOf (' ' :: text) = tokensOf text := by
  rw [tokensOf.eq_def]
  simp

theorem tokensOf_opening (text : List Char) :
    tokensOf ('(' :: text) = .opening :: tokensOf text := by
  rw [tokensOf.eq_def]
  simp

theorem tokensOf_closing (text : List Char) :
    tokensOf (')' :: text) = .closing :: tokensOf text := by
  rw [tokensOf.eq_def]
  simp

/-- The binary operators have these signs. -/
theorem mem_binarySigns (opcode : BinaryOpcode) : opcode.1.operatorText.toList ∈
    [['+'], ['*'], ['-'], ['/'], ['%'], ['>'], ['<'], ['|', '|'], ['&', '&'], ['>', '='], ['<', '='],
      ['=', '='], ['!', '=']] := by
  obtain ⟨opcode, h⟩ := opcode
  change opcode.operatorText.toList ∈ _
  cases opcode <;> first | decide | cases h

theorem tokensOf_binarySign (opcode : BinaryOpcode) (text : List Char) :
    tokensOf (opcode.1.operatorText.toList ++ ' ' :: text) =
      .sign opcode.1.operatorText.toList :: tokensOf text := by
  have hsign := mem_binarySigns opcode
  generalize opcode.1.operatorText.toList = sign at hsign ⊢
  rw [← tokensOf_blank text]
  simp only [List.mem_cons, List.not_mem_nil, or_false] at hsign
  rcases hsign with rfl | rfl | rfl | rfl | rfl | rfl | rfl | rfl | rfl | rfl | rfl | rfl | rfl <;> rfl

theorem operatorText_unary (opcode : UnaryOpcode) :
    ∃ c, opcode.1.operatorText.toList = [c] ∧ (c = '-' ∨ c = '!') := by
  have hsign : opcode.1.operatorText.toList ∈ [['-'], ['!']] := by
    obtain ⟨opcode, h⟩ := opcode
    change opcode.operatorText.toList ∈ _
    cases opcode <;> first | decide | cases h
  simp only [List.mem_cons, List.not_mem_nil, or_false] at hsign
  rcases hsign with hsign | hsign
  · exact ⟨_, hsign, Or.inl rfl⟩
  · exact ⟨_, hsign, Or.inr rfl⟩

namespace Written

theorem decimal_ne_nil (value : UInt16) : (Text.decimal value).toList ≠ [] := by
  rw [Text.decimal, Nat.toString_eq_ofList_toDigits, String.toList_ofList]
  exact Nat.toDigits_ne_nil

theorem isWordChar_decimal (value : UInt16) :
    ∀ c ∈ (Text.decimal value).toList, isWordChar c = true := by
  intro c hc
  simp [isWordChar, Char.isAlphanum, isDigit_decimal value c hc]

theorem ne_nil_of_isIdentifier {text : List Char} (h : isIdentifier text = true) : text ≠ [] := by
  rintro rfl
  cases h

theorem ne_equals_of_word {word : List Char} (hne : word ≠ [])
    (hword : ∀ c ∈ word, isWordChar c = true) (more : List Char) :
    ∀ c ∈ (word ++ more).head?, c ≠ '=' := by
  intro c hc he
  obtain ⟨first, rest, rfl⟩ := List.exists_cons_of_ne_nil hne
  have hfirst := hword first List.mem_cons_self
  rw [Option.mem_some.1 hc, he] at hfirst
  exact absurd hfirst (by decide)

/-- No text of an expression starts with an equals sign. -/
theorem ne_equals_of_text {w : Written} (h : w.Fits) (more : List Char) :
    ∀ c ∈ (w.text.toList ++ more).head?, c ≠ '=' := by
  induction w generalizing more with
  | number value => exact ne_equals_of_word (decimal_ne_nil value) (isWordChar_decimal value) more
  | name text => exact ne_equals_of_word (ne_nil_of_isIdentifier h) (isWordChar_of_isIdentifier h) more
  | unary opcode operand ih =>
    obtain ⟨sign, hsign, hchar⟩ := operatorText_unary opcode
    rw [text, String.toList_append, hsign]
    intro c hc
    rw [← Option.mem_some.1 hc]
    rcases hchar with rfl | rfl <;> decide
  | binary opcode left right ihLeft ihRight =>
    simp only [text, String.toList_append, List.append_assoc]
    exact ihLeft h.2.1 _
  | group inner ih =>
    simp only [text, String.toList_append, List.append_assoc]
    intro c hc
    rw [← Option.mem_some.1 hc]
    decide

/-- The reader's tokens of a text are those that were written. -/
theorem tokensOf_text {w : Written} (h : w.Fits) {more : List Char} (hmore : EndsWord more) :
    tokensOf (w.text.toList ++ more) = w.tokens ++ tokensOf more := by
  have hblank (text : List Char) : EndsWord (' ' :: text) := fun c hc => by
    rw [← Option.mem_some.1 hc]
    decide
  have hclosing (text : List Char) : EndsWord (')' :: text) := fun c hc => by
    rw [← Option.mem_some.1 hc]
    decide
  induction w generalizing more with
  | number value => exact tokensOf_word (decimal_ne_nil value) (isWordChar_decimal value) hmore
  | name text =>
    exact tokensOf_word (ne_nil_of_isIdentifier h) (isWordChar_of_isIdentifier h) hmore
  | unary opcode operand ih =>
    obtain ⟨sign, hsign, hchar⟩ := operatorText_unary opcode
    rw [text, String.toList_append, tokens, hsign]
    change tokensOf (sign :: (operand.text.toList ++ more)) = _
    rw [tokensOf_sign hchar (ne_equals_of_text h.2 more), ih h.2 hmore]
    rfl
  | binary opcode left right ihLeft ihRight =>
    have htext : (binary opcode left right).text.toList ++ more = left.text.toList ++
        ' ' :: (opcode.1.operatorText.toList ++ ' ' :: (right.text.toList ++ more)) := by
      simp [text]
    rw [htext, ihLeft h.2.1 (hblank _), tokensOf_blank, tokensOf_binarySign, ihRight h.2.2 hmore,
      tokens, List.append_assoc]
    rfl
  | group inner ih =>
    have htext : (group inner).text.toList ++ more = '(' :: (inner.text.toList ++ ')' :: more) := by
      simp [text]
    rw [htext, tokensOf_opening, ih h (hclosing _), tokensOf_closing, tokens]
    simp

end Written

/-! ## What the reader makes of the tokens -/

theorem readWord_decimal (value : UInt16) :
    readWord (Text.decimal value).toList = .number value := by
  have hdigits : (Text.decimal value).toList.all Char.isDigit = true :=
    List.all_eq_true.2 (isDigit_decimal value)
  have hvalue : Nat.ofDigitChars 10 (Text.decimal value).toList 0 = value.toNat := by
    rw [Text.decimal, Nat.toString_eq_ofList_toDigits, String.toList_ofList]
    exact Nat.ofDigitChars_toDigits (by decide) (by decide)
  rw [readWord, if_pos hdigits, hvalue, UInt16.ofNat_toNat]

theorem isDigit_of_isAlpha {c : Char} (h : c.isAlpha = true) : c.isDigit = false := by
  change (decide (65 ≤ c.val ∧ c.val ≤ 90) ||
    (decide (97 ≤ c.val) && decide (c.val ≤ 122))) = true at h
  simp [Char.isDigit, UInt32.le_iff_toNat_le] at h ⊢
  omega

theorem readWord_name {text : String} (h : isIdentifier text.toList = true) :
    readWord text.toList = .name text := by
  have hdigits : ¬ text.toList.all Char.isDigit = true := by
    intro hall
    cases htext : text.toList with
    | nil =>
      rw [htext] at h
      cases h
    | cons c rest =>
      rw [htext] at h hall
      simp only [isIdentifier, Bool.and_eq_true, Bool.or_eq_true, decide_eq_true_eq] at h
      simp only [List.all_cons, Bool.and_eq_true] at hall
      rcases h.1 with halpha | rfl
      · rw [isDigit_of_isAlpha halpha] at hall
        exact Bool.false_ne_true hall.1
      · exact absurd hall.1 (by decide)
  rw [readWord, if_neg hdigits, String.ofList_toList]

theorem binarySign?_operatorText (opcode : BinaryOpcode) :
    binarySign? opcode.1.operatorText.toList = some opcode := by
  obtain ⟨opcode, h⟩ := opcode
  have hsign : (binarySign? opcode.operatorText.toList).map Subtype.val = some opcode := by
    cases opcode <;> first | decide | cases h
  obtain ⟨found, hfound, hval⟩ := Option.map_eq_some_iff.1 hsign
  exact hfound.trans (congrArg some (Subtype.ext hval))

theorem unarySign?_operatorText (opcode : UnaryOpcode) :
    unarySign? opcode.1.operatorText.toList = some opcode := by
  obtain ⟨opcode, h⟩ := opcode
  have hsign : (unarySign? opcode.operatorText.toList).map Subtype.val = some opcode := by
    cases opcode <;> first | decide | cases h
  obtain ⟨found, hfound, hval⟩ := Option.map_eq_some_iff.1 hsign
  exact hfound.trans (congrArg some (Subtype.ext hval))

/-- The operators that wait bind looser than `level`, and none of them is unary. -/
def WaitsBelow (level : Nat) : List Pending → Prop
  | .unary _ :: _ => False
  | .binary _ opcode :: _ => opcode.1.precedence < level
  | _ => True

theorem WaitsBelow.mono {level higher : Nat} {pending : List Pending} (h : WaitsBelow level pending)
    (hle : level ≤ higher) : WaitsBelow higher pending := by
  cases pending with
  | nil => trivial
  | cons top rest =>
    cases top with
    | unary opcode => exact h
    | binary left opcode => exact Nat.lt_of_lt_of_le h hle
    | group => trivial

/-- What waits when something stands to the left. -/
def waiting (left : Option (Reading × BinaryOpcode)) (pending : List Pending) : List Pending :=
  match left with
  | none => pending
  | some (left, opcode) => .binary left opcode :: pending

theorem settleUnary_below {level : Nat} {pending : List Pending} (h : WaitsBelow level pending)
    (operand : Reading) : settleUnary pending operand = (pending, operand) := by
  cases pending with
  | nil => rfl
  | cons top rest =>
    cases top with
    | unary opcode => exact absurd h id
    | _ => rfl

theorem settle_below {level : Nat} {pending : List Pending} (h : WaitsBelow level pending)
    (operand : Reading) : settle level pending operand = (pending, operand) := by
  cases pending with
  | nil => rfl
  | cons top rest =>
    cases top with
    | binary left opcode => exact if_neg (Nat.not_le_of_gt h)
    | _ => rfl

theorem settle_waiting {level : Nat} {left : Option (Reading × BinaryOpcode)}
    (h : ∀ entry ∈ left, level ≤ entry.2.1.precedence) (pending : List Pending) (operand : Reading) :
    settle level (waiting left pending) operand =
      settle level pending (Written.close left operand) := by
  cases left with
  | none => rfl
  | some entry => exact if_pos (h entry rfl)

namespace Written

/-- The level up to which an expression takes what stands to its left. -/
def reach (w : Written) (left : Option (Reading × BinaryOpcode)) : Nat :=
  match left with
  | none => w.binds
  | some (_, opcode) => opcode.1.precedence

/-- What the reader makes of an expression.  Operators that bind tightly are taken at once; of the others
the reader knows only what they amount to when something looser follows. -/
structure ReadBy (w : Written) : Prop where
  tight : unaryPrecedence ≤ w.binds → ∀ pending,
    w.tokens.foldlM ReaderState.next (.wanting pending) =
      some (.found pending (w.readBehind none))
  loose : ∀ left pending, (∀ entry ∈ left, entry.2.1.precedence ≤ w.binds) →
    WaitsBelow (w.reach left) pending → ∃ pending' operand,
      w.tokens.foldlM ReaderState.next (.wanting (waiting left pending)) =
        some (.having pending' operand) ∧
      ∀ level ≤ w.binds, (∀ entry ∈ left, level ≤ entry.2.1.precedence) →
        settle level pending' operand = settle level pending (w.readBehind left)

/-- An expression that binds more tightly than what stands to its left is its right operand. -/
theorem readBy_of_tight {w : Written}
    (hclose : ∀ left, w.readBehind left = close left (w.readBehind none))
    (h : ∀ pending, w.tokens.foldlM ReaderState.next (.wanting pending) =
      some (.found pending (w.readBehind none))) : w.ReadBy := by
  refine ⟨fun _ => h, fun left pending hleft hbelow => ?_⟩
  have hunary : settleUnary (waiting left pending) (w.readBehind none) =
      (waiting left pending, w.readBehind none) := by
    cases left with
    | none => exact settleUnary_below hbelow _
    | some entry => rfl
  refine ⟨waiting left pending, w.readBehind none, ?_, fun level _ hlevel => ?_⟩
  · rw [h, ReaderState.found, hunary]
  · rw [settle_waiting hlevel, hclose left]

theorem precedence_binary (opcode : BinaryOpcode) : opcode.1.precedence < unaryPrecedence := by
  obtain ⟨opcode, h⟩ := opcode
  change opcode.precedence < _
  cases opcode <;> first | decide | cases h

theorem next_binarySign (opcode : BinaryOpcode) (pending : List Pending) (operand : Reading) :
    ReaderState.next (.having pending operand) (.sign opcode.1.operatorText.toList) =
      some (.wanting (.binary (settle opcode.1.precedence pending operand).2 opcode ::
        (settle opcode.1.precedence pending operand).1)) := by
  rw [ReaderState.next, binarySign?_operatorText]
  rfl

theorem run_append {start state : ReaderState} {first : List Token}
    (h : first.foldlM ReaderState.next start = some state) (second : List Token) :
    (first ++ second).foldlM ReaderState.next start = second.foldlM ReaderState.next state := by
  rw [List.foldlM_append, h]
  rfl

theorem run_cons {start state : ReaderState} {token : Token} (h : start.next token = some state)
    (rest : List Token) :
    (token :: rest).foldlM ReaderState.next start = rest.foldlM ReaderState.next state := by
  rw [List.foldlM_cons, h]
  rfl

/-- Behind its left operand an operator takes it, with all that stands left of it and binds as tightly. -/
theorem readBy_binary {opcode : BinaryOpcode} {first second : Written} (hsecond : second.ReadBy)
    (hbinds : opcode.1.precedence ≤ second.binds) {start : ReaderState}
    {pending pending' : List Pending} {left operand : Reading}
    (hrun : first.tokens.foldlM ReaderState.next start = some (.having pending' operand))
    (hsettle : settle opcode.1.precedence pending' operand = (pending, left))
    (hbelow : WaitsBelow opcode.1.precedence pending) :
    ∃ pending'' operand', (binary opcode first second).tokens.foldlM ReaderState.next start =
        some (.having pending'' operand') ∧
      ∀ level ≤ opcode.1.precedence, settle level pending'' operand' =
        settle level pending (second.readBehind (some (left, opcode))) := by
  obtain ⟨pending'', operand', hrun', hsettle'⟩ :=
    hsecond.loose (some (left, opcode)) pending (by simpa using hbinds) hbelow
  refine ⟨pending'', operand', ?_, fun level hlevel => ?_⟩
  · rw [tokens, run_append hrun, run_cons (next_binarySign opcode pending' operand), hsettle]
    exact hrun'
  · exact hsettle' level (Nat.le_trans hlevel hbinds) (by simpa using hlevel)

/-- Where the left operand goes on with what stands to the left, all of it is the operator's. -/
theorem readBy_of_ties {opcode : BinaryOpcode} {first second : Written} {left : Option (Reading × BinaryOpcode)}
    {pending : List Pending} (hfirst : first.ReadBy) (hsecond : second.ReadBy)
    (hbindsFirst : opcode.1.precedence ≤ first.binds) (hbindsSecond : opcode.1.precedence ≤ second.binds)
    (hties : ties left opcode = true) (hbelow : WaitsBelow ((binary opcode first second).reach left) pending) :
    ∃ pending' operand, (binary opcode first second).tokens.foldlM ReaderState.next (.wanting (waiting left pending)) =
        some (.having pending' operand) ∧
      ∀ level ≤ opcode.1.precedence, settle level pending' operand =
        settle level pending ((binary opcode first second).readBehind left) := by
  obtain ⟨entry, rfl⟩ : ∃ entry, left = some entry := by
    cases left with
    | none => cases hties
    | some entry => exact ⟨entry, rfl⟩
  have hlevel : entry.2.1.precedence = opcode.1.precedence := by simpa [ties] using hties
  have hbelow' : WaitsBelow opcode.1.precedence pending := hlevel ▸ hbelow
  obtain ⟨pending', operand, hrun, hsettle⟩ := hfirst.loose (some entry) pending
    (by simpa [hlevel] using hbindsFirst) hbelow
  have hdone := hsettle opcode.1.precedence hbindsFirst (by simp [hlevel])
  rw [settle_below hbelow'] at hdone
  obtain ⟨pending'', operand', hrun', hsettle'⟩ := readBy_binary hsecond hbindsSecond hrun hdone hbelow'
  refine ⟨pending'', operand', hrun', fun level hlevel' => ?_⟩
  rw [hsettle' level hlevel', readBehind, if_pos hties]

/-- Where the operator binds tighter than what stands to the left, that waits. -/
theorem readBy_of_not_ties {opcode : BinaryOpcode} {first second : Written} {left : Option (Reading × BinaryOpcode)}
    {pending : List Pending} (hfirst : first.ReadBy) (hsecond : second.ReadBy)
    (hbindsFirst : opcode.1.precedence ≤ first.binds) (hbindsSecond : opcode.1.precedence ≤ second.binds)
    (hties : ties left opcode = false) (hleft : ∀ entry ∈ left, entry.2.1.precedence ≤ opcode.1.precedence)
    (hbelow : WaitsBelow ((binary opcode first second).reach left) pending) :
    ∃ pending' operand, (binary opcode first second).tokens.foldlM ReaderState.next (.wanting (waiting left pending)) =
        some (.having pending' operand) ∧
      ∀ level ≤ opcode.1.precedence, (∀ entry ∈ left, level ≤ entry.2.1.precedence) →
        settle level pending' operand = settle level pending ((binary opcode first second).readBehind left) := by
  have hbelow' : WaitsBelow opcode.1.precedence (waiting left pending) := by
    cases left with
    | none => exact hbelow
    | some entry =>
      have hne : entry.2.1.precedence ≠ opcode.1.precedence := by simpa [ties] using hties
      exact Nat.lt_of_le_of_ne (hleft entry rfl) hne
  have hbelowFirst : WaitsBelow (first.reach none) (waiting left pending) := hbelow'.mono hbindsFirst
  obtain ⟨pending', operand, hrun, hsettle⟩ := hfirst.loose none (waiting left pending) (by simp) hbelowFirst
  have hdone := hsettle opcode.1.precedence hbindsFirst (by simp)
  rw [settle_below hbelow'] at hdone
  obtain ⟨pending'', operand', hrun', hsettle'⟩ := readBy_binary hsecond hbindsSecond hrun hdone hbelow'
  refine ⟨pending'', operand', hrun', fun level hlevel hleft' => ?_⟩
  rw [hsettle' level hlevel, settle_waiting hleft', readBehind, hties]
  rfl

/-- The reader makes of a text what its grouping says. -/
theorem readBy {w : Written} (h : w.Fits) : w.ReadBy := by
  induction w with
  | number value =>
    refine readBy_of_tight (fun _ => rfl) fun pending => ?_
    rw [tokens, List.foldlM_cons, ReaderState.next, readWord_decimal]
    rfl
  | name text =>
    refine readBy_of_tight (fun _ => rfl) fun pending => ?_
    rw [tokens, List.foldlM_cons, ReaderState.next, readWord_name h]
    rfl
  | unary opcode operand ih =>
    refine readBy_of_tight (fun _ => rfl) fun pending => ?_
    rw [tokens, List.foldlM_cons, ReaderState.next, unarySign?_operatorText]
    exact (ih h.2).tight h.1 (.unary opcode :: pending)
  | group inner ih =>
    refine readBy_of_tight (fun _ => rfl) fun pending => ?_
    obtain ⟨pending', operand, hrun, hsettle⟩ :=
      (ih h).loose none (.group :: pending) (by simp) trivial
    have hgroup : settle 0 pending' operand = (.group :: pending, inner.readBehind none) :=
      hsettle 0 (Nat.zero_le _) (by simp)
    have hclosing : ReaderState.next (.having pending' operand) .closing =
        some (.found pending (inner.readBehind none)) := by
      rw [ReaderState.next, hgroup]
    have hopening : ReaderState.next (.wanting pending) .opening =
        some (.wanting (waiting none (.group :: pending))) := rfl
    rw [tokens, run_cons hopening, run_append hrun, run_cons hclosing]
    rfl
  | binary opcode first second ihFirst ihSecond =>
    obtain ⟨⟨hbindsFirst, hbindsSecond⟩, hfirst, hsecond⟩ := h
    refine ⟨fun hbinds => absurd (precedence_binary opcode) (Nat.not_lt_of_le hbinds),
      fun left pending hleft hbelow => ?_⟩
    cases hties : ties left opcode with
    | true =>
      obtain ⟨pending', operand, hrun, hsettle⟩ :=
        readBy_of_ties (ihFirst hfirst) (ihSecond hsecond) hbindsFirst hbindsSecond hties hbelow
      exact ⟨pending', operand, hrun, fun level hlevel _ => hsettle level hlevel⟩
    | false =>
      exact readBy_of_not_ties (ihFirst hfirst) (ihSecond hsecond) hbindsFirst hbindsSecond hties hleft hbelow

end Written

/-- A text is read as its grouping says. -/
theorem readText_text {w : Written} (h : w.Fits) :
    readText w.text.toList = some (w.readBehind none) := by
  have htokens : tokensOf w.text.toList = w.tokens := by
    have hempty : EndsWord [] := fun c hc => by cases hc
    simpa [tokensOf] using Written.tokensOf_text h hempty
  obtain ⟨pending, operand, hrun, hsettle⟩ :=
    (Written.readBy h).loose none [] (by simp) trivial
  have hdone : settle 0 pending operand = ([], w.readBehind none) :=
    hsettle 0 (Nat.zero_le _) (by simp)
  have hrun' : w.tokens.foldlM ReaderState.next (.wanting []) = some (.having pending operand) := hrun
  rw [readText, htokens, hrun', Option.bind_some, ReaderState.finish, hdone]

end Parley.Source
