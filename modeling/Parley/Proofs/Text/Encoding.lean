import Parley.Text.Lossy
import Parley.Text.Blank
set_option autoImplicit false

/-!
# Text from the bytes of a text

The bytes of a text are read back as the text.  If they are cut off somewhere, the characters in front of the
cut are read back, and a character that the cut goes through becomes one replacement character.  A text is
read back from a part of its bytes only if that character was a replacement character before.
-/

namespace Parley.Text

/-- The bytes of characters. -/
def bytesOf (cs : List Char) : List UInt8 := cs.flatMap String.utf8EncodeChar

@[simp] theorem bytesOf_nil : bytesOf [] = [] := rfl

@[simp] theorem bytesOf_cons (c : Char) (cs : List Char) :
    bytesOf (c :: cs) = String.utf8EncodeChar c ++ bytesOf cs := rfl

@[simp] theorem bytesOf_append (cs cs' : List Char) :
    bytesOf (cs ++ cs') = bytesOf cs ++ bytesOf cs' := List.flatMap_append

theorem encode_eq (text : String) : encode text = bytesOf text.toList := by
  rw [encode, String.toUTF8_eq_toByteArray, ← String.ofList_toList (s := text),
    String.toByteArray_ofList, String.toList_ofList]
  exact List.toList_data_toByteArray

/-! ## The bytes of one character -/

section Bytes

variable {a b c d : UInt8}

theorem isContinuation_iff : isContinuation b = true ↔ 0x80 ≤ b.toNat ∧ b.toNat ≤ 0xbf := by
  simp [isContinuation, UInt8.le_iff_toNat_le]

theorem startsThree_iff : startsThree a b = true ↔
    (a.toNat = 0xe0 ∧ 0xa0 ≤ b.toNat ∧ b.toNat ≤ 0xbf) ∨
    (0xe1 ≤ a.toNat ∧ a.toNat ≤ 0xec ∧ 0x80 ≤ b.toNat ∧ b.toNat ≤ 0xbf) ∨
    (a.toNat = 0xed ∧ 0x80 ≤ b.toNat ∧ b.toNat ≤ 0x9f) ∨
    (0xee ≤ a.toNat ∧ a.toNat ≤ 0xef ∧ 0x80 ≤ b.toNat ∧ b.toNat ≤ 0xbf) := by
  simp [startsThree, isContinuation, UInt8.le_iff_toNat_le, ← UInt8.toNat_inj, and_assoc, or_assoc]

theorem startsFour_iff : startsFour a b = true ↔
    (a.toNat = 0xf0 ∧ 0x90 ≤ b.toNat ∧ b.toNat ≤ 0xbf) ∨
    (0xf1 ≤ a.toNat ∧ a.toNat ≤ 0xf3 ∧ 0x80 ≤ b.toNat ∧ b.toNat ≤ 0xbf) ∨
    (a.toNat = 0xf4 ∧ 0x80 ≤ b.toNat ∧ b.toNat ≤ 0x8f) := by
  simp [startsFour, isContinuation, UInt8.le_iff_toNat_le, ← UInt8.toNat_inj, and_assoc, or_assoc]

end Bytes

/-- Bytes that are the well-formed encoding of the character with a number. -/
inductive Spells (n : Nat) : List UInt8 → Prop where
  | one {a : UInt8} : a.toNat < 0x80 → n = a.toNat → Spells n [a]
  | two {a b : UInt8} : 0xc2 ≤ a.toNat → a.toNat ≤ 0xdf → isContinuation b = true →
    n = (a.toNat - 0xc0) * 64 + payload b → Spells n [a, b]
  | three {a b c : UInt8} : startsThree a b = true → isContinuation c = true →
    n = (a.toNat - 0xe0) * 4096 + payload b * 64 + payload c → Spells n [a, b, c]
  | four {a b c d : UInt8} : startsFour a b = true → isContinuation c = true → isContinuation d = true →
    n = (a.toNat - 0xf0) * 262144 + payload b * 4096 + payload c * 64 + payload d → Spells n [a, b, c, d]

/-- The bytes that a character is written as are its encoding. -/
theorem spells_utf8EncodeChar (c : Char) : Spells c.toNat (String.utf8EncodeChar c) := by
  have hvalid : c.toNat < 0xd800 ∨ (0xdfff < c.toNat ∧ c.toNat < 0x110000) := c.valid
  have htoNat : c.val.toNat = c.toNat := rfl
  simp only [String.utf8EncodeChar, htoNat]
  generalize c.toNat = n at hvalid
  have hbyte (k : Nat) (h : k < 256) : (UInt8.ofNat k).toNat = k := by simpa using h
  split
  · have hsmall : (UInt8.ofNat n).toNat = n := hbyte n (by omega)
    exact .one (by omega) hsmall.symm
  · split
    · refine .two ?_ ?_ ?_ ?_ <;>
        simp (disch := omega) only [isContinuation_iff, payload, hbyte] <;> omega
    · split
      · refine .three ?_ ?_ ?_ <;>
          simp (disch := omega) only [startsThree_iff, isContinuation_iff, payload, hbyte] <;> omega
      · refine .four ?_ ?_ ?_ ?_ <;>
          simp (disch := omega) only [startsFour_iff, isContinuation_iff, payload, hbyte] <;> omega

section Decoding

variable {a b c d : UInt8} {n : Nat} {bytes rest : List UInt8}

theorem not_ascii (ha : 0x80 ≤ a.toNat) : ¬ a < 0x80 := by
  rw [UInt8.lt_iff_toNat_lt]
  exact Nat.not_lt.2 ha

theorem not_startsTwo (ha : 0xdf < a.toNat) :
    ¬ (decide (0xc2 ≤ a) && decide (a ≤ 0xdf) && isContinuation b) = true := by
  have : ¬ a ≤ 0xdf := fun h => absurd (UInt8.le_iff_toNat_le.1 h) (Nat.not_le.2 ha)
  simp [this]

theorem toNat_of_startsThree (h : startsThree a b = true) : 0xe0 ≤ a.toNat ∧ a.toNat ≤ 0xef := by
  rw [startsThree_iff] at h
  omega

theorem toNat_of_startsFour (h : startsFour a b = true) : 0xf0 ≤ a.toNat := by
  rw [startsFour_iff] at h
  omega

theorem not_startsThree (h : startsFour a b = true) : ¬ startsThree a b = true := fun h' => by
  have := toNat_of_startsThree h'
  have := toNat_of_startsFour h
  omega

theorem decodeLossy_one (ha : a.toNat < 0x80) :
    decodeLossy (a :: rest) = Char.ofNat a.toNat :: decodeLossy rest := by
  have hlt : a < 0x80 := UInt8.lt_iff_toNat_lt.2 ha
  cases rest with
  | nil => rw [decodeLossy.eq_2, if_pos hlt, decodeLossy.eq_1]
  | cons b rest => rw [decodeLossy.eq_def]; simp only [hlt, if_true]

theorem decodeLossy_two (hlow : 0xc2 ≤ a.toNat) (hhigh : a.toNat ≤ 0xdf) (hb : isContinuation b = true) :
    decodeLossy (a :: b :: rest) = Char.ofNat ((a.toNat - 0xc0) * 64 + payload b) :: decodeLossy rest := by
  have htwo : (decide (0xc2 ≤ a) && decide (a ≤ 0xdf) && isContinuation b) = true := by
    simp [UInt8.le_iff_toNat_le, hlow, hhigh, hb]
  rw [decodeLossy.eq_def]
  simp only [if_neg (not_ascii (Nat.le_trans (by decide) hlow)), if_pos htwo]

/-- A character of three bytes that may be cut off behind the second one. -/
theorem decodeLossy_three (hab : startsThree a b = true) :
    decodeLossy (a :: b :: rest) =
      match rest with
      | [] => [replacement]
      | c :: rest =>
        if isContinuation c then
          Char.ofNat ((a.toNat - 0xe0) * 4096 + payload b * 64 + payload c) :: decodeLossy rest
        else replacement :: decodeLossy (c :: rest) := by
  have ha := (toNat_of_startsThree hab).1
  have hascii : ¬ a < 0x80 := not_ascii (Nat.le_trans (by decide) ha)
  rw [decodeLossy.eq_def]
  exact (if_neg hascii).trans ((if_neg (not_startsTwo ha)).trans (if_pos hab))

theorem decodeLossy_four (hab : startsFour a b = true) :
    decodeLossy (a :: b :: rest) =
      match rest with
      | [] => [replacement]
      | [c] =>
        if isContinuation c then [replacement] else replacement :: decodeLossy [c]
      | c :: d :: rest =>
        if !isContinuation c then replacement :: decodeLossy (c :: d :: rest)
        else if !isContinuation d then replacement :: decodeLossy (d :: rest)
        else
          Char.ofNat ((a.toNat - 0xf0) * 262144 + payload b * 4096 + payload c * 64 + payload d) ::
            decodeLossy rest := by
  have ha := toNat_of_startsFour hab
  have hascii : ¬ a < 0x80 := not_ascii (Nat.le_trans (by decide) ha)
  have htwo : 0xdf < a.toNat := Nat.lt_of_lt_of_le (by decide) ha
  rw [decodeLossy.eq_def]
  exact (if_neg hascii).trans ((if_neg (not_startsTwo htwo)).trans
    ((if_neg (not_startsThree hab)).trans (if_pos hab)))

/-- The encoding of a character is read as the character. -/
theorem Spells.decodeLossy_append (h : Spells n bytes) :
    decodeLossy (bytes ++ rest) = Char.ofNat n :: decodeLossy rest := by
  cases h with
  | one ha hn => rw [hn]; exact decodeLossy_one ha
  | two hlow hhigh hb hn => rw [hn]; exact decodeLossy_two hlow hhigh hb
  | three hab hc hn => simp [decodeLossy_three hab, hc, hn]
  | four hab hc hd hn => simp [decodeLossy_four hab, hc, hd, hn]

/-- The encoding of a character that is cut off is read as one replacement character. -/
theorem Spells.decodeLossy_take {count : Nat} (h : Spells n bytes) (hpos : 0 < count)
    (hcut : count < bytes.length) : decodeLossy (bytes.take count) = [replacement] := by
  have hsingle {a : UInt8} (ha : 0x80 ≤ a.toNat) : decodeLossy [a] = [replacement] := by
    rw [decodeLossy.eq_2, if_neg (not_ascii ha)]
  cases h with
  | one => simp at hcut; omega
  | two hlow _ _ _ =>
    obtain rfl : count = 1 := by simp at hcut; omega
    exact hsingle (by omega)
  | three hab _ _ =>
    have ha := toNat_of_startsThree hab
    obtain rfl | rfl : count = 1 ∨ count = 2 := by simp at hcut; omega
    · exact hsingle (by omega)
    · exact decodeLossy_three hab
  | four hab hc _ _ =>
    have ha := toNat_of_startsFour hab
    obtain rfl | rfl | rfl : count = 1 ∨ count = 2 ∨ count = 3 := by simp at hcut; omega
    · exact hsingle (by omega)
    · exact decodeLossy_four hab
    · simp [decodeLossy_four hab, hc]

end Decoding

/-! ## Characters, whole and cut off -/

/-- The characters that are read where the bytes of characters are cut off behind `limit` bytes. -/
def cutAt : Nat → List Char → List Char
  | _, [] => []
  | limit, c :: cs =>
    if c.utf8Size ≤ limit then c :: cutAt (limit - c.utf8Size) cs
    else if limit = 0 then [] else [replacement]

theorem decodeLossy_take_bytesOf (limit : Nat) (cs : List Char) :
    decodeLossy ((bytesOf cs).take limit) = cutAt limit cs := by
  induction cs generalizing limit with
  | nil => simp [cutAt, decodeLossy]
  | cons c cs ih =>
    have hspells := spells_utf8EncodeChar c
    have hlength : (String.utf8EncodeChar c).length = c.utf8Size := String.length_utf8EncodeChar c
    rw [bytesOf_cons, List.take_append, hlength, cutAt]
    split
    next hfits =>
      rw [List.take_of_length_le (by omega), hspells.decodeLossy_append, ih, Char.ofNat_toNat]
    next hcut =>
      rw [Nat.sub_eq_zero_of_le (by omega), List.take_zero, List.append_nil]
      split
      next hzero => rw [hzero, List.take_zero, decodeLossy]
      next hpos => exact hspells.decodeLossy_take (by omega) (by omega)

theorem length_bytesOf_cons (c : Char) (cs : List Char) :
    (bytesOf (c :: cs)).length = c.utf8Size + (bytesOf cs).length := by
  rw [bytesOf_cons, List.length_append, String.length_utf8EncodeChar]

/-- Characters that fit are not cut off. -/
theorem cutAt_of_le {limit : Nat} {cs : List Char} (h : (bytesOf cs).length ≤ limit) :
    cutAt limit cs = cs := by
  induction cs generalizing limit with
  | nil => rfl
  | cons c cs ih =>
    rw [length_bytesOf_cons] at h
    rw [cutAt, if_pos (by omega), ih (by omega)]

/-- The bytes of a text are read as the text. -/
theorem decodeLossy_encode (text : String) : decodeLossy (encode text) = text.toList := by
  have hall := decodeLossy_take_bytesOf (bytesOf text.toList).length text.toList
  rwa [List.take_length, cutAt_of_le (Nat.le_refl _), ← encode_eq] at hall

theorem length_cutAt_le (limit : Nat) (cs : List Char) : (cutAt limit cs).length ≤ cs.length := by
  induction cs generalizing limit with
  | nil => exact Nat.le_refl _
  | cons c cs ih =>
    have := ih (limit - c.utf8Size)
    rw [cutAt]
    split
    · simp only [List.length_cons]; omega
    · split <;> simp

theorem length_bytesOf_of_getLast? {cs : List Char} {c : Char} (h : cs.getLast? = some c) :
    c.utf8Size ≤ (bytesOf cs).length := by
  obtain ⟨front, rfl⟩ := List.getLast?_eq_some_iff.1 h
  simp [String.length_utf8EncodeChar]

/-- Nothing changes where the characters fit, and where the last one is cut off but is a replacement
character itself, which has three bytes. -/
theorem cutAt_eq_self_iff {limit : Nat} {cs : List Char} : cutAt limit cs = cs ↔
    (bytesOf cs).length ≤ limit ∨
      ((bytesOf cs).length ≤ limit + 2 ∧ cs.getLast? = some replacement) := by
  have hsize : replacement.utf8Size = 3 := by decide
  induction cs generalizing limit with
  | nil => simp [cutAt]
  | cons c cs ih =>
    have hpos := c.utf8Size_pos
    rw [length_bytesOf_cons, cutAt]
    split
    next hfits =>
      simp only [List.cons.injEq, true_and, ih]
      cases cs with
      | nil => simp; omega
      | cons d cs =>
        have hle : (bytesOf (d :: cs)).length ≤ limit - c.utf8Size ↔
          c.utf8Size + (bytesOf (d :: cs)).length ≤ limit := by omega
        have hle' : (bytesOf (d :: cs)).length ≤ limit - c.utf8Size + 2 ↔
          c.utf8Size + (bytesOf (d :: cs)).length ≤ limit + 2 := by omega
        rw [List.getLast?_cons_cons, hle, hle']
    next hcut =>
      cases cs with
      | nil =>
        rw [bytesOf_nil, List.length_nil, List.getLast?_singleton]
        constructor
        · intro h
          split at h
          · cases h
          · cases h
            exact .inr ⟨by omega, rfl⟩
        · rintro (h | ⟨h, hc⟩)
          · omega
          · cases hc
            rw [if_neg (by omega)]
      | cons d cs =>
        rw [List.getLast?_cons_cons]
        constructor
        · intro h
          split at h <;> cases h
        · rintro (h | ⟨h, hlast⟩)
          · omega
          · have := length_bytesOf_of_getLast? hlast
            omega

/-- Cutting twice is cutting once. -/
theorem cutAt_cutAt (limit : Nat) (cs : List Char) : cutAt limit (cutAt limit cs) = cutAt limit cs := by
  induction cs generalizing limit with
  | nil => rfl
  | cons c cs ih =>
    rw [cutAt]
    split
    next hfits => rw [cutAt, if_pos hfits, ih]
    next hcut =>
      split
      next hzero => rfl
      next hpos =>
        rw [cutAt, if_neg hpos, cutAt]
        split <;> rfl

/-! ## Trailing characters -/

theorem dropEndWhile_prefix (p : Char → Bool) (cs : List Char) : dropEndWhile p cs <+: cs := by
  have := List.reverse_prefix.2 (List.dropWhile_suffix p (l := cs.reverse))
  rwa [List.reverse_reverse] at this

theorem getLast?_dropEndWhile {p : Char → Bool} {cs : List Char} {c : Char}
    (h : (dropEndWhile p cs).getLast? = some c) : p c = false := by
  have hnot := List.head?_dropWhile_not p cs.reverse
  rw [dropEndWhile, List.getLast?_reverse] at h
  rw [h] at hnot
  exact hnot

/-- What would be dropped at the end may stand there once more. -/
theorem dropEndWhile_concat {p : Char → Bool} {cs : List Char} {c : Char} (hc : p c = true) :
    dropEndWhile p (cs ++ [c]) = dropEndWhile p cs := by
  unfold dropEndWhile
  rw [List.reverse_append, List.reverse_singleton, List.singleton_append, List.dropWhile_cons_of_pos hc]

theorem dropEndWhile_eq_self {p : Char → Bool} {cs : List Char}
    (h : ∀ c, cs.getLast? = some c → p c = false) : dropEndWhile p cs = cs := by
  rw [dropEndWhile]
  cases hr : cs.reverse with
  | nil => simpa using hr.symm
  | cons c front =>
    have hc : p c = false := h c (by rw [← List.head?_reverse, hr, List.head?_cons])
    rw [List.dropWhile_cons_of_neg (by simp [hc]), ← hr, List.reverse_reverse]

/-- Dropping characters behind a cut does not bring back what was cut off. -/
theorem dropEndWhile_cutAt_eq_self_iff {p : Char → Bool} {limit : Nat} {cs : List Char}
    (h : ∀ c, cs.getLast? = some c → p c = false) :
    dropEndWhile p (cutAt limit cs) = cs ↔ cutAt limit cs = cs := by
  constructor
  · intro heq
    have hfront := dropEndWhile_prefix p (cutAt limit cs)
    rw [heq] at hfront
    exact (hfront.eq_of_length_le (length_cutAt_le limit cs)).symm
  · intro heq
    rw [heq, dropEndWhile_eq_self h]

end Parley.Text
