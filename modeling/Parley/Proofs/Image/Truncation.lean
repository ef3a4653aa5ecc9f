import Parley.Proofs.Image.RoundTrip
set_option autoImplicit false

/-!
# Images that are cut off

Reading an image takes exactly the bytes that it needs from the front.  Whatever stands behind them makes no
difference, and when any of them are missing, the fault is that bytes are missing and no other.  An import that
cannot be understood is found as soon as its own bytes are there, so more bytes do not change the fault.

All of this holds of every reader that is made of reads of bytes one after the other.
-/

namespace Parley

namespace Binary

variable {α β : Type}

theorem reader_bind_of_error {reader : Reader α} {f : α → Reader β} {cursor : Cursor} {fault : LoadFault}
    (h : reader cursor = .error fault) : (reader >>= f) cursor = .error fault := by
  change Except.bind (reader cursor) _ = _
  rw [h]
  rfl

theorem reader_bind_eq_error {reader : Reader α} {f : α → Reader β} {cursor : Cursor} {fault : LoadFault}
    (h : (reader >>= f) cursor = .error fault) :
    reader cursor = .error fault ∨ ∃ a cursor', reader cursor = .ok (a, cursor') ∧ f a cursor' = .error fault := by
  cases hx : reader cursor with
  | error fault' =>
    rw [reader_bind_of_error hx] at h
    cases h
    exact Or.inl rfl
  | ok result =>
    obtain ⟨a, cursor'⟩ := result
    rw [reader_bind_of_ok hx] at h
    exact Or.inr ⟨a, cursor', rfl, h⟩

/-! ## Readers that take what they need -/

/-- The reader reads these bytes, and misses bytes behind the end when it is given fewer of them. -/
structure Takes (reader : Reader α) (bytes : List UInt8) (a : α) : Prop where
  reads : Reads reader bytes a
  misses : ∀ count < bytes.length, ∀ offset, ∃ place needed,
    reader ⟨bytes.take count, offset⟩ = .error (.unexpectedEnd place needed) ∧ offset + count < place + needed

/-- The reader looks at no more bytes than it takes, or than it faults for. -/
structure Incremental (reader : Reader α) : Prop where
  takes : ∀ cursor cursor' a, reader cursor = .ok (a, cursor') →
    ∃ bytes, cursor.rest = bytes ++ cursor'.rest ∧ Takes reader bytes a
  refuses : ∀ rest offset index field value,
    reader ⟨rest, offset⟩ = .error (.malformedImport index field value) →
      ∀ behind, reader ⟨rest ++ behind, offset⟩ = .error (.malformedImport index field value)

theorem takes_nil {reader : Reader α} {a : α} (h : Reads reader [] a) : Takes reader [] a :=
  ⟨h, fun _ hcount => absurd hcount (Nat.not_lt_zero _)⟩

theorem Takes.bind {reader : Reader α} {f : α → Reader β} {bytes bytes' : List UInt8} {a : α} {b : β}
    (hx : Takes reader bytes a) (hf : Takes (f a) bytes' b) : Takes (reader >>= f) (bytes ++ bytes') b := by
  refine ⟨hx.reads.bind hf.reads, fun count hcount offset => ?_⟩
  rw [List.length_append] at hcount
  rcases Nat.lt_or_ge count bytes.length with hfirst | hsecond
  · obtain ⟨place, needed, hfault, hbehind⟩ := hx.misses count hfirst offset
    rw [List.take_append_of_le_length (Nat.le_of_lt hfirst)]
    exact ⟨place, needed, reader_bind_of_error hfault, hbehind⟩
  · obtain ⟨place, needed, hfault, hbehind⟩ :=
      hf.misses (count - bytes.length) (by omega) (offset + bytes.length)
    have hcut : (bytes ++ bytes').take count = bytes ++ bytes'.take (count - bytes.length) := by
      rw [List.take_append, List.take_of_length_le hsecond]
    rw [hcut, reader_bind_of_ok (hx.reads _ _)]
    exact ⟨place, needed, hfault, by omega⟩

theorem incremental_pure (a : α) : Incremental (pure a) where
  takes cursor cursor' b h := by
    cases h
    exact ⟨[], rfl, takes_nil (reads_pure a)⟩
  refuses rest offset index field value h := by cases h

theorem incremental_throw (fault : LoadFault) : Incremental (throw fault : Reader α) where
  takes cursor cursor' a h := by cases h
  refuses rest offset index field value h := by
    cases h
    exact fun _ => rfl

theorem Incremental.bind {reader : Reader α} {f : α → Reader β} (hx : Incremental reader)
    (hf : ∀ a, Incremental (f a)) : Incremental (reader >>= f) where
  takes cursor cursor'' b h := by
    obtain ⟨a, cursor', ha, hb⟩ := reader_bind_eq_ok.1 h
    obtain ⟨bytes, hrest, htakes⟩ := hx.takes _ _ _ ha
    obtain ⟨bytes', hrest', htakes'⟩ := (hf a).takes _ _ _ hb
    refine ⟨bytes ++ bytes', ?_, htakes.bind htakes'⟩
    rw [hrest, hrest', List.append_assoc]
  refuses rest offset index field value h behind := by
    rcases reader_bind_eq_error h with hfirst | ⟨a, cursor', ha, hsecond⟩
    · exact reader_bind_of_error (hx.refuses _ _ _ _ _ hfirst behind)
    · obtain ⟨bytes, hrest, htakes⟩ := hx.takes _ _ _ ha
      obtain rfl : rest = bytes ++ cursor'.rest := hrest
      have hcursor : cursor' = ⟨cursor'.rest, offset + bytes.length⟩ := by
        have hread := ha.symm.trans (htakes.reads cursor'.rest offset)
        simp only [Except.ok.injEq, Prod.mk.injEq] at hread
        exact hread.2
      rw [hcursor] at hsecond
      rw [List.append_assoc, reader_bind_of_ok (htakes.reads _ _)]
      exact (hf a).refuses _ _ _ _ _ hsecond behind

/-! ## Bytes and words -/

theorem takeExactly?_eq_some {count : Nat} {xs taken rest : List α} (h : takeExactly? count xs = some (taken, rest)) :
    xs = taken ++ rest ∧ taken.length = count := by
  induction count generalizing xs taken with
  | zero =>
    cases h
    exact ⟨rfl, rfl⟩
  | succ count ih =>
    cases xs with
    | nil => cases h
    | cons x xs =>
      simp only [takeExactly?, Option.map_eq_some_iff, Prod.mk.injEq, Prod.exists] at h
      obtain ⟨taken, rest, hrest, rfl, rfl⟩ := h
      obtain ⟨rfl, hlength⟩ := ih hrest
      exact ⟨rfl, congrArg (· + 1) hlength⟩

theorem takeExactly?_eq_none {count : Nat} {xs : List α} (h : xs.length < count) : takeExactly? count xs = none := by
  cases htake : takeExactly? count xs with
  | none => rfl
  | some result =>
    obtain ⟨taken, rest⟩ := result
    obtain ⟨rfl, rfl⟩ := takeExactly?_eq_some htake
    rw [List.length_append] at h
    omega

theorem incremental_readBytes (count : Nat) : Incremental (readBytes count) where
  takes cursor cursor' bytes h := by
    unfold readBytes at h
    split at h
    · rename_i taken rest htake
      cases h
      obtain ⟨hrest, rfl⟩ := takeExactly?_eq_some htake
      refine ⟨bytes, hrest, reads_bytes bytes, fun fewer hfewer offset => ?_⟩
      refine ⟨offset, bytes.length, ?_, Nat.add_lt_add_left hfewer offset⟩
      have hshort : (bytes.take fewer).length < bytes.length :=
        Nat.lt_of_le_of_lt (List.length_take_le fewer bytes) hfewer
      simp only [readBytes, takeExactly?_eq_none hshort]
    · cases h
  refuses rest offset index field value h := by
    unfold readBytes at h
    split at h <;> cases h

theorem incremental_readWord : Incremental readWord where
  takes cursor cursor' word h := by
    unfold readWord at h
    split at h
    · rename_i low high rest hrest
      cases h
      refine ⟨[low, high], hrest, fun _ _ => rfl, fun count hcount offset => ?_⟩
      refine ⟨offset, 2, ?_, Nat.add_lt_add_left hcount offset⟩
      match count, hcount with
      | 0, _ => rfl
      | 1, _ => rfl
    · cases h
  refuses rest offset index field value h := by
    unfold readWord at h
    split at h <;> cases h

theorem incremental_readWordsFrom (words : Array UInt16) (count : Nat) : Incremental (readWordsFrom words count) := by
  induction count generalizing words with
  | zero => exact incremental_pure words
  | succ count ih =>
    rw [readWordsFrom_succ]
    exact incremental_readWord.bind fun word => ih (words.push word)

end Binary

namespace Image

open Binary

/-! ## Images -/

theorem incremental_readImport (index : Nat) (image : Image) : Incremental (readImport index image) := by
  refine incremental_readWord.bind fun length => (incremental_readBytes _).bind fun name =>
    incremental_readWord.bind fun id => incremental_readWord.bind fun _ =>
    incremental_readWord.bind fun kind => incremental_readWord.bind fun returnType => ?_
  split
  · exact incremental_throw _
  · dsimp only
    split
    · exact incremental_pure _
    · split
      · exact incremental_pure _
      · exact incremental_throw _

theorem incremental_readImports (index : Nat) (image : Image) (count : Nat) :
    Incremental (readImports index image count) := by
  induction count generalizing index image with
  | zero => exact incremental_pure image
  | succ count ih =>
    rw [readImports_succ]
    exact (incremental_readImport index image).bind fun image' => ih (index + 1) image'

theorem incremental_read (slot : Option UInt16) : Incremental (read slot) := by
  refine (incremental_readBytes 4).bind fun _ => incremental_readWord.bind fun codeSize =>
    (incremental_readBytes 4).bind fun _ => incremental_readWord.bind fun stringBlock =>
    incremental_readWord.bind fun reservedGlobals => incremental_readWord.bind fun importCount => ?_
  refine (incremental_readImports _ _ _).bind fun image => ?_
  exact (incremental_readWordsFrom _ _).bind fun code => incremental_pure _

/-- The image as it is for a conversation of the game. -/
def mended (image : Image) : Option UInt16 → Image
  | none => image
  | some slot => (image.applyPatches slot).1

theorem ofBytes_of_ok {bytes : List UInt8} {slot : Option UInt16} {image : Image} {cursor : Cursor}
    (h : read slot (.start bytes) = .ok (image, cursor)) : ofBytes bytes slot = .ok (image.mended slot) := by
  have hrun : (read slot).run (.start bytes) = .ok (image, cursor) := h
  rw [ofBytes, hrun]
  cases slot <;> rfl

theorem ofBytes_eq_error_iff {bytes : List UInt8} {slot : Option UInt16} {fault : LoadFault} :
    ofBytes bytes slot = .error fault ↔ read slot (.start bytes) = .error fault := by
  constructor
  · intro h
    cases hread : read slot (.start bytes) with
    | ok result =>
      rw [ofBytes_of_ok hread] at h
      cases h
    | error fault' =>
      have hrun : (read slot).run (.start bytes) = .error fault' := hread
      rw [ofBytes, hrun] at h
      cases h
      rfl
  · intro h
    have hrun : (read slot).run (.start bytes) = .error fault := h
    rw [ofBytes, hrun]

/-- An image is read from a number of bytes at the front: with fewer of them, bytes behind the end are missing; with
these and any more, the image is the same.  And an import that cannot be understood is so whatever stands behind the
bytes. -/
theorem ofBytes_takes_front (bytes : List UInt8) (slot : Option UInt16) :
    (∀ image, ofBytes bytes slot = .ok image → ∃ length ≤ bytes.length,
      (∀ count < length, ∃ offset needed,
        ofBytes (bytes.take count) slot = .error (.unexpectedEnd offset needed) ∧ count < offset + needed) ∧
      ∀ behind, ofBytes (bytes.take length ++ behind) slot = .ok image) ∧
    ∀ index field value, ofBytes bytes slot = .error (.malformedImport index field value) →
      ∀ behind, ofBytes (bytes ++ behind) slot = .error (.malformedImport index field value) := by
  constructor
  · intro image h
    cases hread : read slot (.start bytes) with
    | error fault =>
      rw [ofBytes_eq_error_iff.2 hread] at h
      cases h
    | ok result =>
      obtain ⟨loaded, cursor⟩ := result
      rw [ofBytes_of_ok hread] at h
      cases h
      obtain ⟨front, hrest, htakes⟩ := (incremental_read slot).takes _ _ _ hread
      obtain rfl : bytes = front ++ cursor.rest := hrest
      refine ⟨front.length, ?_, fun count hcount => ?_, fun behind => ?_⟩
      · rw [List.length_append]
        exact Nat.le_add_right _ _
      · obtain ⟨place, needed, hfault, hbehind⟩ := htakes.misses count hcount 0
        rw [List.take_append_of_le_length (Nat.le_of_lt hcount)]
        rw [Nat.zero_add] at hbehind
        exact ⟨place, needed, ofBytes_eq_error_iff.2 hfault, hbehind⟩
      · rw [List.take_left]
        exact ofBytes_of_ok (htakes.reads behind 0)
  · intro index field value h behind
    exact ofBytes_eq_error_iff.2
      ((incremental_read slot).refuses _ _ _ _ _ (ofBytes_eq_error_iff.1 h) behind)

/-- The bytes of an image that imports one item of a kind, which is named `h`, and says its first line; a byte that is
no part of it stands behind them. -/
def greeting (kind : UInt16) : List UInt8 :=
  mark ++ wordsBytes [4, 0, 0, 0x0e01, 0, 1, 1] ++ [0x68] ++ wordsBytes [7, 1, kind, typeWord .int] ++
    wordsBytes [Opcode.pushi.toWord, 0, Opcode.sayOp.toWord, Opcode.exitOp.toWord] ++ [0xff]

theorem ofBytes_takes_front_greeting :
    (∃ length ≤ (greeting functionKind).length,
      (∀ count < length, ∃ offset needed, ofBytes ((greeting functionKind).take count) none =
        .error (.unexpectedEnd offset needed) ∧ count < offset + needed) ∧
      ∀ behind, (ofBytes ((greeting functionKind).take length ++ behind) none).isOk = true) ∧
    ∀ behind, ofBytes (greeting 0x99 ++ behind) none = .error (.malformedImport 0 .kind 0x99) := by
  obtain ⟨length, hlength, hcut, hmore⟩ := (ofBytes_takes_front (greeting functionKind) none).1 _ rfl
  refine ⟨⟨length, hlength, hcut, fun behind => ?_⟩, (ofBytes_takes_front (greeting 0x99) none).2 _ _ _ rfl⟩
  rw [hmore]
  rfl

end Image

end Parley
