import Parley.Image.Binary
set_option autoImplicit false

/-!
# What readers take from bytes

A reader reads `bytes` as `a` if it takes exactly these bytes from the front of any longer sequence and
results in `a`.  Readers in sequence read bytes in sequence.  What holds of every result of a reader is
shown along its binds too.
-/

namespace Parley.Binary

variable {α β : Type}

/-! ## Readers in sequence -/

theorem reader_bind_of_ok {reader : Reader α} {f : α → Reader β} {cursor cursor' : Cursor} {a : α}
    (h : reader cursor = .ok (a, cursor')) : (reader >>= f) cursor = f a cursor' := by
  change Except.bind (reader cursor) _ = _
  rw [h]
  rfl

theorem reader_bind_eq_ok {reader : Reader α} {f : α → Reader β} {cursor cursor'' : Cursor} {b : β} :
    (reader >>= f) cursor = .ok (b, cursor'') ↔
      ∃ a cursor', reader cursor = .ok (a, cursor') ∧ f a cursor' = .ok (b, cursor'') := by
  constructor
  · intro h
    cases hx : reader cursor with
    | error fault =>
      change Except.bind (reader cursor) _ = _ at h
      rw [hx] at h
      cases h
    | ok result =>
      obtain ⟨a, cursor'⟩ := result
      rw [reader_bind_of_ok hx] at h
      exact ⟨a, cursor', rfl, h⟩
  · rintro ⟨a, cursor', hx, hf⟩
    rw [reader_bind_of_ok hx, hf]

theorem readWordsFrom_zero (words : Array UInt16) :
    readWordsFrom words 0 = (pure words : Reader (Array UInt16)) := rfl

theorem readWordsFrom_succ (words : Array UInt16) (count : Nat) :
    readWordsFrom words (count + 1) =
      (readWord >>= fun word => readWordsFrom (words.push word) count : Reader (Array UInt16)) := by
  funext cursor
  change _ = Except.bind (readWord cursor) _
  rw [readWordsFrom]
  cases readWord cursor <;> rfl

/-! ## Reading given bytes -/

/-- The reader takes these bytes, whatever stands behind them, and results in `a`. -/
def Reads (reader : Reader α) (bytes : List UInt8) (a : α) : Prop :=
  ∀ rest offset, reader ⟨bytes ++ rest, offset⟩ = .ok (a, ⟨rest, offset + bytes.length⟩)

theorem reads_pure (a : α) : Reads (pure a) [] a := fun _ _ => rfl

theorem Reads.bind {reader : Reader α} {f : α → Reader β} {bytes bytes' : List UInt8} {a : α} {b : β}
    (hx : Reads reader bytes a) (hf : Reads (f a) bytes' b) : Reads (reader >>= f) (bytes ++ bytes') b := by
  intro rest offset
  rw [List.append_assoc, reader_bind_of_ok (hx _ _), hf, List.length_append, Nat.add_assoc]

theorem takeExactly?_append (taken rest : List α) :
    takeExactly? taken.length (taken ++ rest) = some (taken, rest) := by
  induction taken with
  | nil => rfl
  | cons x taken ih => simp [takeExactly?, ih]

theorem reads_bytes (bytes : List UInt8) : Reads (readBytes bytes.length) bytes bytes := by
  intro rest offset
  simp only [readBytes, takeExactly?_append]

/-- The two bytes of a word make up the word. -/
theorem wordOfBytes_wordBytes (word : UInt16) :
    wordOfBytes word.toUInt8 (word >>> 8).toUInt8 = word := by
  have hlt := word.toNat_lt
  have hshift : (word >>> 8).toNat = word.toNat / 256 := by
    rw [UInt16.toNat_shiftRight, Nat.shiftRight_eq_div_pow]
    rfl
  rw [wordOfBytes, ← UInt16.toNat_inj, UInt16.toNat_ofNat', UInt16.toNat_toUInt8, UInt16.toNat_toUInt8,
    hshift]
  omega

theorem reads_word (word : UInt16) : Reads readWord (wordBytes word) word := by
  intro rest offset
  simp [readWord, wordBytes, wordOfBytes_wordBytes]

@[simp] theorem wordsBytes_nil : wordsBytes [] = [] := rfl

theorem wordsBytes_cons (word : UInt16) (words : List UInt16) :
    wordsBytes (word :: words) = wordBytes word ++ wordsBytes words := List.flatMap_cons

theorem reads_wordsFrom (words : Array UInt16) (behind : List UInt16) :
    Reads (readWordsFrom words behind.length) (wordsBytes behind) (words ++ behind) := by
  induction behind generalizing words with
  | nil => simpa [readWordsFrom_zero] using reads_pure words
  | cons word behind ih =>
    have happend : words ++ word :: behind = words.push word ++ behind := by simp
    rw [List.length_cons, readWordsFrom_succ, wordsBytes_cons, happend]
    exact (reads_word word).bind (ih _)

theorem reads_words (words : Array UInt16) :
    Reads (readWords words.size) (wordsBytes words.toList) words := by
  simpa [readWords] using reads_wordsFrom #[] words.toList

/-! ## The bytes of what was read -/

/-- The word of two bytes is made up of these bytes. -/
theorem wordBytes_wordOfBytes (low high : UInt8) : wordBytes (wordOfBytes low high) = [low, high] := by
  have hlow : low.toNat < 256 := low.toNat_lt
  have hhigh : high.toNat < 256 := high.toNat_lt
  have hword : (wordOfBytes low high).toNat = low.toNat + 256 * high.toNat :=
    UInt16.toNat_ofNat_of_lt' (by change _ < 65536; omega)
  have hshift : (wordOfBytes low high >>> 8).toNat = high.toNat := by
    rw [UInt16.toNat_shiftRight, Nat.shiftRight_eq_div_pow, hword]
    change (low.toNat + 256 * high.toNat) / 256 = high.toNat
    omega
  have hfirst : (wordOfBytes low high).toUInt8 = low := by
    rw [← UInt8.toNat_inj, UInt16.toNat_toUInt8, hword]
    omega
  have hsecond : (wordOfBytes low high >>> 8).toUInt8 = high := by
    rw [← UInt8.toNat_inj, UInt16.toNat_toUInt8, hshift]
    omega
  rw [wordBytes, hfirst, hsecond]

theorem rest_of_readWord {cursor cursor' : Cursor} {word : UInt16} (h : readWord cursor = .ok (word, cursor')) :
    cursor.rest = wordBytes word ++ cursor'.rest := by
  unfold readWord at h
  split at h
  · rename_i low high rest hrest
    cases h
    rw [hrest, wordBytes_wordOfBytes]
    rfl
  · cases h

theorem rest_of_readWordsFrom {words result : Array UInt16} {count : Nat} {cursor cursor' : Cursor}
    (h : readWordsFrom words count cursor = .ok (result, cursor')) :
    ∃ behind : List UInt16, behind.length = count ∧ result = words ++ behind ∧
      cursor.rest = wordsBytes behind ++ cursor'.rest := by
  induction count generalizing words cursor with
  | zero =>
    cases h
    exact ⟨[], rfl, by simp, rfl⟩
  | succ count ih =>
    rw [readWordsFrom_succ] at h
    obtain ⟨word, cursor₁, hword, hmore⟩ := reader_bind_eq_ok.1 h
    obtain ⟨behind, hlength, rfl, hrest⟩ := ih hmore
    refine ⟨word :: behind, congrArg (· + 1) hlength, by simp, ?_⟩
    rw [rest_of_readWord hword, hrest, wordsBytes_cons, List.append_assoc]

theorem rest_of_readWords {words : Array UInt16} {count : Nat} {cursor cursor' : Cursor}
    (h : readWords count cursor = .ok (words, cursor')) :
    words.size = count ∧ cursor.rest = wordsBytes words.toList ++ cursor'.rest := by
  obtain ⟨behind, hlength, rfl, hrest⟩ := rest_of_readWordsFrom h
  simpa using ⟨hlength, hrest⟩

/-! ## All results of a reader -/

/-- Every result of the reader has a property. -/
def Yields (reader : Reader α) (property : α → Prop) : Prop :=
  ∀ cursor cursor' a, reader cursor = .ok (a, cursor') → property a

theorem yields_pure {property : α → Prop} {a : α} (h : property a) : Yields (pure a) property := by
  intro cursor cursor' b hb
  cases hb
  exact h

theorem yields_throw {property : α → Prop} {fault : LoadFault} : Yields (throw fault) property := by
  intro cursor cursor' a h
  cases h

theorem Yields.bind {reader : Reader α} {f : α → Reader β} {property : α → Prop} {property' : β → Prop}
    (hx : Yields reader property) (hf : ∀ a, property a → Yields (f a) property') :
    Yields (reader >>= f) property' := by
  intro cursor cursor'' b h
  obtain ⟨a, cursor', ha, hb⟩ := reader_bind_eq_ok.1 h
  exact hf a (hx _ _ _ ha) _ _ _ hb

theorem yields_bind {reader : Reader α} {f : α → Reader β} {property : β → Prop}
    (hf : ∀ a, Yields (f a) property) : Yields (reader >>= f) property :=
  have hany : Yields reader fun _ => True := fun _ _ _ _ => trivial
  hany.bind fun a _ => hf a

theorem yields_wordsFrom (words : Array UInt16) (count : Nat) :
    Yields (readWordsFrom words count) fun result => result.size = words.size + count := by
  induction count generalizing words with
  | zero => exact yields_pure rfl
  | succ count ih =>
    rw [readWordsFrom_succ]
    refine yields_bind fun word => ?_
    simpa only [Array.size_push, Nat.add_assoc, Nat.add_comm 1] using ih (words.push word)

theorem yields_words (count : Nat) : Yields (readWords count) fun words => words.size = count := by
  simpa [readWords] using yields_wordsFrom #[] count

end Parley.Binary
