import Mathlib.Data.List.TakeWhile
import Parley.Machine.Strings
import Parley.Proofs.Text.Numeral
set_option autoImplicit false

/-!
# Placeholders are replaced in one pass

A text is gone through from left to right.  Where a placeholder begins, the longest one is taken; its value is read and
shown in its place, unless its number needs more than 32 bits.  Every other character stays.  What is shown is not
looked at again, so a text is replaced part by part wherever no placeholder stands across the joint.
-/

namespace Parley.Placeholder

variable {text front rest number : List Char} {source : PlaceholderSource} {kind : PlaceholderKind} {n : Int} {c : Char}

/-! ## Placeholders as written -/

/-- The number of a placeholder: digits, with a minus sign before them perhaps, or nothing at all, which is zero. -/
inductive Number : List Char → Int → Prop
  | absent : Number [] 0
  | positive {digits : List Char} {value : Nat} (hdigits : Text.Numeral 10 digits value) : Number digits value
  | negative {digits : List Char} {value : Nat} (hdigits : Text.Numeral 10 digits value) :
      Number ('-' :: digits) (-value)

/-- A text that is a placeholder from its at sign to its last character, whatever its number. -/
inductive Spells : List Char → PlaceholderSource → PlaceholderKind → Int → Prop
  | intro {sourceLetter kindLetter : Char} {number : List Char} {source : PlaceholderSource} {kind : PlaceholderKind}
      {n : Int} (hsource : source? sourceLetter = some source) (hkind : kind? kindLetter = some kind)
      (hnumber : Number number n) : Spells ('@' :: sourceLetter :: kindLetter :: number) source kind n

/-- The longest placeholder that a text begins with. -/
structure Longest (text front : List Char) (source : PlaceholderSource) (kind : PlaceholderKind) (n : Int) : Prop where
  spells : Spells front source kind n
  begins : front <+: text
  longest : ∀ other source' kind' n', Spells other source' kind' n' → other <+: text → other.length ≤ front.length

/-- A number of 32 bits with a sign. -/
def Fits (n : Int) : Prop := -0x80000000 ≤ n ∧ n < 0x80000000

instance (n : Int) : Decidable (Fits n) := inferInstanceAs (Decidable (_ ∧ _))

section Expands

variable {σ : Type} (read : Placeholder → StateM σ UInt16) (string : UInt16 → String)

/-- One pass over a text, with the state in which values are read before it and after it: a placeholder is read once
and replaced, and the pass goes on behind it; every other character is copied. -/
inductive Expands : List Char → σ → List Char → σ → Prop
  | done {s : σ} : Expands [] s [] s
  | hole {front rest out : List Char} {source : PlaceholderSource} {kind : PlaceholderKind} {n : Int}
      {value : UInt16} {s s₁ s₂ : σ} (hlongest : Longest (front ++ rest) front source kind n) (hfits : Fits n)
      (hread : read ⟨source, kind, n, front.length⟩ s = (value, s₁)) (hrest : Expands rest s₁ out s₂) :
      Expands (front ++ rest) s ((shown string kind value).toList ++ out) s₂
  | plain {c : Char} {rest out : List Char} {s s₁ : σ}
      (hnone : ∀ front source kind n, Longest (c :: rest) front source kind n → ¬ Fits n)
      (hrest : Expands rest s out s₁) : Expands (c :: rest) s (c :: out) s₁

end Expands

/-! ## Numbers -/

/-- The digits at the front of a text are the longest run of digits there. -/
theorem length_le_takeWhile {digits : List Char} (hdigits : ∀ c ∈ digits, Text.isDecimalDigit c = true)
    (hfront : digits <+: text) : digits.length ≤ (text.takeWhile Text.isDecimalDigit).length := by
  obtain ⟨rest, rfl⟩ := hfront
  rw [List.takeWhile_append_of_pos hdigits, List.length_append]
  exact Nat.le_add_right _ _

/-- What stands at the front of a text as its numeral, by whether a minus sign comes first. -/
theorem numeral_of_ne (h : text.head? ≠ some '-') : numeral text = text.takeWhile Text.isDecimalDigit := by
  unfold numeral
  split
  · exact absurd rfl h
  · rfl

theorem numeral_minus (text : List Char) :
    numeral ('-' :: text) =
      if text.takeWhile Text.isDecimalDigit = [] then [] else '-' :: text.takeWhile Text.isDecimalDigit := by
  unfold numeral
  split
  · rename_i rest heq
    obtain rfl := (List.cons.inj heq).2
    cases text.takeWhile Text.isDecimalDigit <;> rfl
  · rename_i hminus
    exact absurd rfl (hminus text)

/-- The numeral at the front of a text is a number, if it is but nothing. -/
theorem exists_number (text : List Char) : ∃ n, Number (numeral text) n := by
  by_cases hminus : text.head? = some '-'
  · obtain ⟨rest, rfl⟩ := List.head?_eq_some_iff.1 hminus
    rw [numeral_minus]
    split
    · exact ⟨0, .absent⟩
    · rename_i hne
      obtain ⟨value, hvalue⟩ := Text.exists_numeral hne fun c hc =>
        List.mem_takeWhile_imp (p := Text.isDecimalDigit) hc
      exact ⟨_, .negative hvalue⟩
  · rw [numeral_of_ne hminus]
    by_cases hnil : text.takeWhile Text.isDecimalDigit = []
    · rw [hnil]
      exact ⟨0, .absent⟩
    · obtain ⟨value, hvalue⟩ := Text.exists_numeral hnil fun c hc =>
        List.mem_takeWhile_imp (p := Text.isDecimalDigit) hc
      exact ⟨_, .positive hvalue⟩

theorem numeral_begins (text : List Char) : numeral text <+: text := by
  by_cases hminus : text.head? = some '-'
  · obtain ⟨rest, rfl⟩ := List.head?_eq_some_iff.1 hminus
    rw [numeral_minus]
    split
    · exact List.nil_prefix
    · exact (List.prefix_cons_inj '-').2 ( List.takeWhile_prefix _)
  · rw [numeral_of_ne hminus]
    exact List.takeWhile_prefix _

/-- No number at the front of a text is longer than its numeral. -/
theorem length_le_numeral (h : Number front n) (hfront : front <+: text) : front.length ≤ (numeral text).length := by
  cases h with
  | absent => exact Nat.zero_le _
  | positive hdigits =>
    have hminus : text.head? ≠ some '-' := by
      obtain ⟨rest, rfl⟩ := hfront
      obtain ⟨first, digits, rfl⟩ := List.exists_cons_of_ne_nil hdigits.ne_nil
      exact hdigits.head?_ne (Text.digit?_minus 10)
    rw [numeral_of_ne hminus]
    exact length_le_takeWhile hdigits.isSome_digit? hfront
  | @negative digits value hdigits =>
    obtain ⟨rest, rfl⟩ := hfront
    have hle := length_le_takeWhile hdigits.isSome_digit? (List.prefix_append digits rest)
    have hne : (digits ++ rest).takeWhile Text.isDecimalDigit ≠ [] := by
      intro hnil
      rw [hnil, List.length_nil, Nat.le_zero, List.length_eq_zero_iff] at hle
      exact hdigits.ne_nil hle
    rw [List.cons_append, numeral_minus, if_neg hne]
    exact Nat.succ_le_succ hle

/-- A number is read if it has no more than 32 bits. -/
theorem param?_of_number (h : Number number n) : param? number = if Fits n then some n else none := by
  cases h with
  | absent => rfl
  | @positive digits value hdigits =>
    have hne : number.isEmpty = false := List.isEmpty_eq_false_iff.2 hdigits.ne_nil
    have hfits : Fits value ↔ value ≤ 0x7fffffff := by
      unfold Fits
      omega
    rw [param?, hne, if_neg Bool.false_ne_true, Text.integer32?_of_ne (hdigits.head?_ne (Text.digit?_minus 10)),
      Text.natural?_of_numeral hdigits]
    by_cases hle : value ≤ 0x7fffffff
    · rw [if_pos hle, if_pos (hfits.2 hle)]
      rfl
    · rw [if_neg hle, if_neg (fun h => hle (hfits.1 h))]
      rfl
  | @negative digits value hdigits =>
    have hfits : Fits (-value) ↔ value ≤ 0x80000000 := by
      unfold Fits
      omega
    rw [param?, List.isEmpty_cons, if_neg Bool.false_ne_true, Text.integer32?_minus,
      Text.digits?_eq_some_iff.2 hdigits, Option.filter_some]
    by_cases hle : value ≤ 0x80000000
    · rw [if_pos (decide_eq_true hle), if_pos (hfits.2 hle)]
      rfl
    · rw [if_neg (fun h => hle (of_decide_eq_true h)), if_neg (fun h => hle (hfits.1 h))]
      rfl

/-! ## The longest placeholder -/

section Letters

variable {sourceLetter kindLetter : Char} (hsource : source? sourceLetter = some source)
  (hkind : kind? kindLetter = some kind)

include hsource hkind

theorem ofText?_letters (rest : List Char) :
    ofText? ('@' :: sourceLetter :: kindLetter :: rest) =
      (param? (numeral rest)).map fun n => ⟨source, kind, n, 3 + (numeral rest).length⟩ := by
  simp only [ofText?, hsource, hkind, Option.bind_eq_bind, Option.bind_some]
  cases param? (numeral rest) <;> rfl

/-- Behind the letters of a placeholder its number reaches as far as there are digits. -/
theorem longest_letters (hnumber : Number (numeral rest) n) :
    Longest ('@' :: sourceLetter :: kindLetter :: rest) ('@' :: sourceLetter :: kindLetter :: numeral rest) source
      kind n where
  spells := .intro hsource hkind hnumber
  begins := by
    simp only [List.prefix_cons_inj]
    exact numeral_begins rest
  longest other source' kind' n' hother hfront := by
    obtain ⟨-, -, hnumber'⟩ := hother
    simp only [List.cons_prefix_cons] at hfront
    exact Nat.add_le_add_right (length_le_numeral hnumber' hfront.2.2.2) 3

end Letters

/-- A placeholder is read from its letters and the number behind them. -/
theorem letters_of_ofText? {p : Placeholder} (h : ofText? text = some p) :
    ∃ sourceLetter kindLetter rest, text = '@' :: sourceLetter :: kindLetter :: rest ∧
      source? sourceLetter = some p.source ∧ kind? kindLetter = some p.kind := by
  unfold ofText? at h
  split at h
  · rename_i sourceLetter kindLetter rest
    obtain ⟨source, hsource, h⟩ := Option.bind_eq_some_iff.1 h
    obtain ⟨kind, hkind, h⟩ := Option.bind_eq_some_iff.1 h
    obtain ⟨n, -, h⟩ := Option.bind_eq_some_iff.1 h
    cases h
    exact ⟨sourceLetter, kindLetter, rest, rfl, hsource, hkind⟩
  · cases h

/-- The longest placeholder of a text ends where the digits behind its letters end. -/
theorem Longest.letters (h : Longest text front source kind n) :
    ∃ sourceLetter kindLetter rest, text = '@' :: sourceLetter :: kindLetter :: rest ∧
      source? sourceLetter = some source ∧ kind? kindLetter = some kind ∧
      front = '@' :: sourceLetter :: kindLetter :: numeral rest ∧ Number (numeral rest) n := by
  obtain ⟨hspells, ⟨tail, rfl⟩, hlongest⟩ := h
  obtain @⟨sourceLetter, kindLetter, number, _, _, _, hsource, hkind, hnumber⟩ := hspells
  have hfront : number <+: number ++ tail := List.prefix_append number tail
  obtain ⟨n', hnumber'⟩ := exists_number (number ++ tail)
  have hother := longest_letters hsource hkind hnumber'
  have hle := hlongest _ _ _ _ hother.spells hother.begins
  simp only [List.length_cons, Nat.add_le_add_iff_right] at hle
  have heq : numeral (number ++ tail) = number :=
    (List.prefix_of_prefix_length_le (numeral_begins _) hfront hle).eq_of_length
      (Nat.le_antisymm hle (length_le_numeral hnumber hfront))
  exact ⟨sourceLetter, kindLetter, number ++ tail, rfl, hsource, hkind, by rw [heq], heq.symm ▸ hnumber⟩

/-- The longest placeholder that a text begins with is read, if its number has no more than 32 bits. -/
theorem ofText?_of_longest (h : Longest text front source kind n) :
    ofText? text = if Fits n then some ⟨source, kind, n, front.length⟩ else none := by
  obtain ⟨sourceLetter, kindLetter, rest, rfl, hsource, hkind, rfl, hnumber⟩ := h.letters
  rw [ofText?_letters hsource hkind, param?_of_number hnumber]
  split
  · rw [Option.map_some, List.length_cons, List.length_cons, List.length_cons, Nat.add_comm 3]
  · rfl

/-- What is read at the front of a text is its longest placeholder. -/
theorem longest_of_ofText? {p : Placeholder} (h : ofText? text = some p) :
    ∃ front, Longest text front p.source p.kind p.param ∧ Fits p.param ∧ p.length = front.length := by
  obtain ⟨sourceLetter, kindLetter, rest, rfl, hsource, hkind⟩ := letters_of_ofText? h
  obtain ⟨n, hnumber⟩ := exists_number rest
  have hlongest := longest_letters hsource hkind hnumber
  rw [ofText?_of_longest hlongest] at h
  obtain ⟨hfits, hp⟩ := Option.ite_none_right_eq_some.1 h
  obtain rfl : n = p.param := congrArg param (Option.some.inj hp)
  exact ⟨_, hlongest, hfits, (congrArg length (Option.some.inj hp)).symm⟩

theorem ofText?_eq_none_iff :
    ofText? text = none ↔ ∀ front source kind n, Longest text front source kind n → ¬ Fits n := by
  constructor
  · intro hnone front source kind n hlongest hfits
    rw [ofText?_of_longest hlongest, if_pos hfits] at hnone
    cases hnone
  · intro h
    rw [Option.eq_none_iff_forall_ne_some]
    intro p hp
    obtain ⟨front, hlongest, hfits, -⟩ := longest_of_ofText? hp
    exact h _ _ _ _ hlongest hfits

theorem Longest.ne_nil (h : Longest text front source kind n) : front ≠ [] := by
  obtain ⟨⟨-, -, -⟩, -, -⟩ := h
  exact List.cons_ne_nil _ _

/-! ## Pieces -/

theorem pieces_of_ofText? {p : Placeholder} (hread : ofText? (front ++ rest) = some p)
    (hlength : p.length = front.length) (hne : front ≠ []) : pieces (front ++ rest) = .hole p :: pieces rest := by
  obtain ⟨c, more, rfl⟩ := List.exists_cons_of_ne_nil hne
  rw [List.cons_append] at hread ⊢
  rw [pieces, hread]
  simp only [hlength, List.length_cons, Nat.add_sub_cancel, List.drop_left]

theorem pieces_hole (hlongest : Longest (front ++ rest) front source kind n) (hfits : Fits n) :
    pieces (front ++ rest) = .hole ⟨source, kind, n, front.length⟩ :: pieces rest :=
  pieces_of_ofText? ((ofText?_of_longest hlongest).trans (if_pos hfits)) rfl hlongest.ne_nil

theorem pieces_plain (hnone : ofText? (c :: rest) = none) : pieces (c :: rest) = .plain c :: pieces rest := by
  rw [pieces, hnone]

/-- A text is gone through by placeholders where they begin and by characters elsewhere. -/
@[elab_as_elim]
theorem scan_induction {motive : List Char → Prop} (nil : motive [])
    (hole : ∀ front rest source kind n, Longest (front ++ rest) front source kind n → Fits n → motive rest →
      motive (front ++ rest))
    (plain : ∀ c rest, ofText? (c :: rest) = none → motive rest → motive (c :: rest)) (text : List Char) :
    motive text := by
  induction hlength : text.length using Nat.strongRecOn generalizing text with
  | ind k ih =>
    subst hlength
    match text with
    | [] => exact nil
    | c :: rest =>
      cases hread : ofText? (c :: rest) with
      | none => exact plain c rest hread (ih _ (Nat.lt_succ_self _) rest rfl)
      | some p =>
        obtain ⟨front, hlongest, hfits, -⟩ := longest_of_ofText? hread
        obtain ⟨tail, htail⟩ := hlongest.begins
        have hshorter : tail.length < (c :: rest).length := by
          rw [← htail, List.length_append]
          exact Nat.lt_add_of_pos_left (List.length_pos_iff.2 hlongest.ne_nil)
        rw [← htail] at hlongest ⊢
        exact hole front tail _ _ _ hlongest hfits (ih _ hshorter tail rfl)

/-! ## Texts one behind the other -/

/-- A text that begins like the number of a placeholder. -/
def StartsNumber (text : List Char) : Prop := ∃ c ∈ text.head?, c = '-' ∨ Text.isDecimalDigit c = true

/-- A text that breaks off between the at sign and the second letter of a placeholder. -/
def EndsOpen (text : List Char) : Prop := ['@'] <:+ text ∨ ∃ letter ∈ ['G', 'S', 'P'], ['@', letter] <:+ text

-- Characters are finitely many, but it is the text that is gone through.
instance (text : List Char) : Decidable (StartsNumber text) := Option.decidableExistsMem _

instance (text : List Char) : Decidable (EndsOpen text) := @instDecidableOr _ _ _ (List.decidableBEx _ _)

theorem EndsOpen.mono (h : EndsOpen rest) (hsuffix : rest <:+ text) : EndsOpen text :=
  h.imp (fun h => h.trans hsuffix) fun ⟨letter, hletter, h⟩ => ⟨letter, hletter, h.trans hsuffix⟩

theorem source?_eq_none (h : c ∉ ['G', 'S', 'P']) : source? c = none := by
  unfold source?
  split
  · exact absurd (by decide) h
  · exact absurd (by decide) h
  · exact absurd (by decide) h
  · rfl

section Append

variable {behind : List Char} (hbehind : ¬ StartsNumber behind)

include hbehind

theorem takeWhile_append_behind (text : List Char) :
    (text ++ behind).takeWhile Text.isDecimalDigit = text.takeWhile Text.isDecimalDigit := by
  induction text with
  | nil =>
    cases behind with
    | nil => rfl
    | cons c rest => exact List.takeWhile_cons_of_neg fun hc => hbehind ⟨c, rfl, Or.inr hc⟩
  | cons c rest ih => rw [List.cons_append, List.takeWhile_cons, List.takeWhile_cons, ih]

theorem numeral_append (text : List Char) : numeral (text ++ behind) = numeral text := by
  by_cases hminus : text.head? = some '-'
  · obtain ⟨rest, rfl⟩ := List.head?_eq_some_iff.1 hminus
    rw [List.cons_append, numeral_minus, numeral_minus, takeWhile_append_behind hbehind]
  · have hminus' : (text ++ behind).head? ≠ some '-' := by
      cases text with
      | nil => exact fun h => hbehind ⟨'-', h, Or.inl rfl⟩
      | cons c rest => exact hminus
    rw [numeral_of_ne hminus, numeral_of_ne hminus', takeWhile_append_behind hbehind]

/-- What is read at the front of a text does not depend on what follows, if the text does not break off inside of a
placeholder. -/
theorem ofText?_append (hne : text ≠ []) (hclosed : ¬ EndsOpen text) : ofText? (text ++ behind) = ofText? text := by
  match text with
  | [] => exact absurd rfl hne
  | [c] =>
    have hc : c ≠ '@' := by
      rintro rfl
      exact hclosed (Or.inl List.suffix_rfl)
    simp [ofText?, hc]
  | [c, letter] =>
    by_cases hc : c = '@'
    · subst hc
      have hsource : source? letter = none :=
        source?_eq_none fun h => hclosed (Or.inr ⟨letter, h, List.suffix_rfl⟩)
      cases behind <;> simp [ofText?, hsource]
    · simp [ofText?, hc]
  | c :: sourceLetter :: kindLetter :: rest =>
    by_cases hc : c = '@'
    · subst hc
      simp only [List.cons_append, ofText?, numeral_append hbehind]
    · simp [ofText?, hc]

/-- The pieces of two texts one behind the other are those of the first and then those of the second. -/
theorem pieces_append (hclosed : ¬ EndsOpen text) : pieces (text ++ behind) = pieces text ++ pieces behind := by
  induction text using scan_induction with
  | nil => rw [List.nil_append, pieces, List.nil_append]
  | hole front rest source kind n hlongest hfits ih =>
    have hread := (ofText?_of_longest hlongest).trans (if_pos hfits)
    rw [← ofText?_append hbehind (List.append_ne_nil_of_left_ne_nil hlongest.ne_nil rest) hclosed,
      List.append_assoc] at hread
    rw [pieces_hole hlongest hfits, List.append_assoc, pieces_of_ofText? hread rfl hlongest.ne_nil,
      ih fun h => hclosed (h.mono (List.suffix_append front rest)), List.cons_append]
  | plain c rest hnone ih =>
    have hnone' := hnone
    rw [← ofText?_append hbehind (List.cons_ne_nil c rest) hclosed, List.cons_append] at hnone'
    rw [pieces_plain hnone, List.cons_append, pieces_plain hnone',
      ih fun h => hclosed (h.mono (List.suffix_cons c rest)), List.cons_append]

end Append

/-! ## Replacing -/

section Render

variable {m : Type → Type} [Monad m] [LawfulMonad m] (read : Placeholder → m UInt16) (string : UInt16 → String)

theorem render_append (parts more : List Piece) :
    render read string (parts ++ more) = do
      let front ← render read string parts
      let rest ← render read string more
      return front ++ rest := by
  simp only [render, List.mapM_append, bind_assoc, pure_bind, List.flatten_append]

theorem render_plain (c : Char) (parts : List Piece) :
    render read string (.plain c :: parts) = do
      let rest ← render read string parts
      return c :: rest := by
  simp [render, renderPiece]

theorem render_hole (p : Placeholder) (parts : List Piece) :
    render read string (.hole p :: parts) = do
      let value ← read p
      let rest ← render read string parts
      return (shown string p.kind value).toList ++ rest := by
  simp [render, renderPiece]

/-- Texts are replaced one behind the other, if no placeholder stands across the joint. -/
theorem expandWith_append {text behind : String} (hclosed : ¬ EndsOpen text.toList)
    (hbehind : ¬ StartsNumber behind.toList) :
    expandWith read string (text ++ behind) = do
      let front ← expandWith read string text
      let rest ← expandWith read string behind
      return front ++ rest := by
  simp only [expandWith, String.toList_append, pieces_append hbehind hclosed, render_append, bind_assoc, pure_bind,
    String.ofList_append]

end Render

theorem expand_append (value : Placeholder → UInt16) (string : UInt16 → String) {text behind : String}
    (hclosed : ¬ EndsOpen text.toList) (hbehind : ¬ StartsNumber behind.toList) :
    expand value string (text ++ behind) = expand value string text ++ expand value string behind :=
  congrArg Id.run (expandWith_append (m := Id) _ string hclosed hbehind)

section State

variable {σ : Type} (read : Placeholder → StateM σ UInt16) (string : UInt16 → String)

theorem render_hole_apply (p : Placeholder) (parts : List Piece) (s : σ) :
    render read string (.hole p :: parts) s =
      ((shown string p.kind (read p s).1).toList ++ (render read string parts (read p s).2).1,
        (render read string parts (read p s).2).2) := by
  rw [render_hole]
  rfl

/-- What the pieces of a text are replaced by is what one pass over the text gives. -/
theorem render_eq_iff {out : List Char} {s s' : σ} :
    render read string (pieces text) s = (out, s') ↔ Expands read string text s out s' := by
  constructor
  · induction text using scan_induction generalizing out s with
    | nil =>
      intro h
      rw [pieces] at h
      cases h
      exact .done
    | hole front rest source kind n hlongest hfits ih =>
      intro h
      rw [pieces_hole hlongest hfits, render_hole] at h
      cases h
      exact .hole hlongest hfits rfl (ih rfl)
    | plain c rest hnone ih =>
      intro h
      rw [pieces_plain hnone, render_plain] at h
      cases h
      exact .plain (ofText?_eq_none_iff.1 hnone) (ih rfl)
  · intro h
    induction h with
    | done =>
      rw [pieces]
      rfl
    | hole hlongest hfits hread _ ih =>
      rw [pieces_hole hlongest hfits, render_hole_apply, hread, ih]
    | @plain c rest out s s₁ hnone _ ih =>
      rw [pieces_plain (ofText?_eq_none_iff.2 hnone), render_plain]
      exact congrArg (fun result : List Char × σ => (c :: result.1, result.2)) ih

/-- Replacing the placeholders of a text is one pass over it from left to right: it gives a text and leaves a state
exactly if the pass does.  Two texts one behind the other are replaced one after the other, if the second does not begin
like a number and the first does not break off inside of a placeholder. -/
theorem expandWith_onePass :
    (∀ (text out : String) (s s' : σ),
      expandWith read string text s = (out, s') ↔ Expands read string text.toList s out.toList s') ∧
    (∀ text behind : String, ¬ EndsOpen text.toList → ¬ StartsNumber behind.toList →
      expandWith read string (text ++ behind) = do
        let front ← expandWith read string text
        let rest ← expandWith read string behind
        return front ++ rest) ∧
    ∀ (value : Placeholder → UInt16) (text behind : String), ¬ EndsOpen text.toList → ¬ StartsNumber behind.toList →
      expand value string (text ++ behind) = expand value string text ++ expand value string behind := by
  refine ⟨fun text out s s' => ?_, fun _ _ => expandWith_append read string,
    fun value _ _ => expand_append value string⟩
  have hout : expandWith read string text s =
      (String.ofList (render read string (pieces text.toList) s).1, (render read string (pieces text.toList) s).2) :=
    rfl
  rw [← render_eq_iff, hout, Prod.ext_iff, Prod.ext_iff, String.ext_iff, String.toList_ofList]

end State

/-- Values are read with a list of what has been read so far, and each is the number of those before it. -/
def readCounted (p : Placeholder) : StateM (List Placeholder) UInt16 := fun log =>
  (UInt16.ofNat log.length, log ++ [p])

theorem expandWith_onePass_counted :
    Expands readCounted (fun id => "@GS" ++ Text.decimal id) "@@GS12 - @XI @SI-3@PS-".toList []
        "@@GS0 - @XI 1@GS2-".toList
        [⟨.global, .string, 12, 5⟩, ⟨.frame, .integer, -3, 5⟩, ⟨.pointer, .string, 0, 3⟩] ∧
      (¬ EndsOpen "@SI99999999999-".toList ∧ ¬ StartsNumber "@GI".toList ∧
        expandWith readCounted Text.decimal ("@SI99999999999-" ++ "@GI") [] =
          ("@SI99999999999-0", [⟨.global, .integer, 0, 3⟩])) ∧
      expand (fun _ => 7) Text.decimal ("Ü@SI" ++ "@") = "Ü7@" := by
  have hmixed : pieces "@@GS12 - @XI @SI-3@PS-".toList =
      [.plain '@', .hole ⟨.global, .string, 12, 5⟩, .plain ' ', .plain '-', .plain ' ', .plain '@', .plain 'X',
        .plain 'I', .plain ' ', .hole ⟨.frame, .integer, -3, 5⟩, .hole ⟨.pointer, .string, 0, 3⟩, .plain '-'] := by
    cbv
  have hplain : pieces "@SI99999999999-".toList = "@SI99999999999-".toList.map .plain := by cbv
  have hhole : pieces "@GI".toList = [.hole ⟨.global, .integer, 0, 3⟩] := by cbv
  refine ⟨((expandWith_onePass readCounted _).1 _ _ _ _).1 ?_, ⟨by decide, by decide, ?_⟩, ?_⟩
  · rw [expandWith, hmixed]
    rfl
  · rw [(expandWith_onePass readCounted _).2.1 _ _ (by decide) (by decide), expandWith, hplain, expandWith, hhole]
    rfl
  · rw [(expandWith_onePass readCounted _).2.2 _ _ _ (by decide) (by decide)]
    cbv

end Parley.Placeholder
