import Parley.Proofs.Image.RoundTrip
set_option autoImplicit false

/-!
# Writing images that were read

Whatever bytes an image was read from, it can be written and read again, and everything but the names of
its imports is then as before.  Reading takes 255 bytes of a name and puts a replacement character, which has
three bytes, for each run of them that is no text; the name can so become longer than the 255 bytes that are
written of it, and is then cut once more.
-/

namespace Parley.Image

open Binary

/-! ## What was read -/

/-- An image that `count` imports were read into. -/
structure Loaded (image : Image) (count : Nat) : Prop where
  regular : ∀ entry ∈ image.functions.entries ++ image.globals.entries, entry.2.Regular
  few : image.functions.size + image.globals.size ≤ count

theorem loaded_header (slot : Option UInt16) (stringBlock reservedGlobals : UInt16) :
    Loaded { ofCode #[] with slot, stringBlock, reservedGlobals } 0 :=
  ⟨fun _ h => (List.not_mem_nil h).elim, Nat.le_refl 0⟩

theorem Loaded.withImport {image : Image} {count : Nat} (h : Loaded image count) (kind : UInt16)
    (entry : UInt16 × Import) (hentry : entry.2.Regular) :
    Loaded (image.withImport kind entry) (count + 1) := by
  have hfew := h.few
  have hregular (table : ImportTable) (htable : ∀ x ∈ table.entries, x.2.Regular) (x : UInt16 × Import)
      (hx : x ∈ (table.insert entry.1 entry.2).entries) : x.2.Regular := by
    rcases SortedMap.mem_insert hx with rfl | hx
    · exact hentry
    · exact htable x hx
  have hfunctions := hregular image.functions fun x hx => h.regular x (List.mem_append_left _ hx)
  have hglobals := hregular image.globals fun x hx => h.regular x (List.mem_append_right _ hx)
  rw [Image.withImport]
  split
  · have := SortedMap.size_insert_le image.functions entry.1 entry.2
    refine ⟨fun x hx => ?_, by dsimp only; omega⟩
    rcases List.mem_append.1 hx with hx | hx
    · exact hfunctions x hx
    · exact h.regular x (List.mem_append_right _ hx)
  · have := SortedMap.size_insert_le image.globals entry.1 entry.2
    refine ⟨fun x hx => ?_, by dsimp only; omega⟩
    rcases List.mem_append.1 hx with hx | hx
    · exact h.regular x (List.mem_append_left _ hx)
    · exact hglobals x hx

theorem ends_nameOfBytes (bytes : List UInt8) : (nameOfBytes bytes).toList.getLast? ≠ some '\x00' := by
  intro h
  rw [nameOfBytes, String.toList_ofList] at h
  simpa using Text.getLast?_dropEndWhile h

theorem known_of_typeOfWord? {word : UInt16} {type : DataType} (h : typeOfWord? word = some type) :
    type ≠ .unknown := by
  have hmem := List.mem_of_find?_eq_some h
  rintro rfl
  simp at hmem

theorem yields_import {image : Image} {count : Nat} (index : Nat) (h : Loaded image count) :
    Yields (readImport index image) fun image' => Loaded image' (count + 1) ∧ image'.slot = image.slot := by
  refine yields_bind fun _ => yields_bind fun name => yields_bind fun id => yields_bind fun _ =>
    yields_bind fun kind => yields_bind fun returnType => ?_
  split
  · exact yields_throw
  next type htype =>
    have hregular : Import.Regular ⟨nameOfBytes name, type⟩ :=
      ⟨ends_nameOfBytes name, known_of_typeOfWord? htype⟩
    dsimp only
    split
    next hkind =>
      have := h.withImport kind (id, ⟨nameOfBytes name, type⟩) hregular
      rw [Image.withImport, if_pos hkind] at this
      exact yields_pure ⟨this, rfl⟩
    next hkind =>
      split
      · have := h.withImport kind (id, ⟨nameOfBytes name, type⟩) hregular
        rw [Image.withImport, if_neg hkind] at this
        exact yields_pure ⟨this, rfl⟩
      · exact yields_throw

theorem yields_imports {image : Image} {count : Nat} (index : Nat) (h : Loaded image count) (more : Nat) :
    Yields (readImports index image more) fun image' =>
      Loaded image' (count + more) ∧ image'.slot = image.slot := by
  induction more generalizing index image count with
  | zero => exact yields_pure ⟨h, rfl⟩
  | succ more ih =>
    rw [readImports_succ]
    refine (yields_import index h).bind fun image' h' => ?_
    have := ih (index + 1) h'.1
    rwa [h'.2, Nat.add_assoc, Nat.add_comm 1] at this

theorem yields_read (slot : Option UInt16) : Yields (read slot) fun image =>
    image.slot = slot ∧ image.code.size < UInt16.size ∧ ∃ count < UInt16.size, Loaded image count := by
  refine yields_bind fun _ => yields_bind fun codeSize => yields_bind fun _ =>
    yields_bind fun stringBlock => yields_bind fun reservedGlobals => yields_bind fun importCount => ?_
  have himports := yields_imports 0 (loaded_header slot stringBlock reservedGlobals) importCount.toNat
  refine himports.bind fun image himage => (yields_words codeSize.toNat).bind fun code hcode => ?_
  have hloaded : Loaded { image with code } importCount.toNat := by
    have := himage.1
    rw [Nat.zero_add] at this
    exact ⟨this.regular, this.few⟩
  exact yields_pure ⟨himage.2, hcode ▸ codeSize.toNat_lt, _, importCount.toNat_lt, hloaded⟩

/-- An image that was read without a slot has no slot, and its code and imports can be counted in a word. -/
theorem loaded_of_ofBytes {bytes : List UInt8} {image : Image} (h : ofBytes bytes none = .ok image) :
    image.slot = none ∧ image.code.size < UInt16.size ∧ ∃ count < UInt16.size, Loaded image count := by
  unfold ofBytes at h
  split at h
  · cases h
  next hread =>
    cases h
    exact yields_read none _ _ _ hread

/-! ## Names of text -/

/-- Names whose bytes are text endure, also where the limit goes through a character. -/
theorem endures_nameOfBytes (cs : List Char) : Endures (nameOfBytes (Text.bytesOf cs)) := by
  have htext : (nameOfBytes (Text.bytesOf cs)).toList =
      Text.dropEndWhile (· == '\x00') (Text.cutAt nameLimit cs) := by
    rw [nameOfBytes, String.toList_ofList, Text.decodeLossy_take_bytesOf]
  rw [Endures, Text.encode_eq, htext]
  rcases Text.cutAt_eq_self_iff.1 (Text.cutAt_cutAt nameLimit cs) with hfits | ⟨hlength, hlast⟩
  · obtain ⟨dropped, hdropped⟩ := Text.dropEndWhile_prefix (· == '\x00') (Text.cutAt nameLimit cs)
    rw [← hdropped, Text.bytesOf_append, List.length_append] at hfits
    exact .inl (Nat.le_trans (Nat.le_add_right _ _) hfits)
  · have hkept : Text.dropEndWhile (· == '\x00') (Text.cutAt nameLimit cs) = Text.cutAt nameLimit cs :=
      Text.dropEndWhile_eq_self fun c hc => by
        rw [hlast] at hc
        cases hc
        rfl
    rw [hkept]
    exact .inr ⟨hlength, hlast⟩

/-! ## Writing it again -/

theorem recut_none_eq_self_iff {image : Image} (hslot : image.slot = none)
    (hregular : ∀ entry ∈ image.functions.entries ++ image.globals.entries, entry.2.Regular) :
    image.recut none = image ↔
      ∀ entry ∈ image.functions.entries ++ image.globals.entries, Endures entry.2.name := by
  have htables : image.recut none = image ↔
      image.functions.mapValues Import.recut = image.functions ∧
        image.globals.mapValues Import.recut = image.globals := by
    cases image
    cases hslot
    simp [recut]
  rw [htables, SortedMap.mapValues_eq_self_iff, SortedMap.mapValues_eq_self_iff,
    ← List.forall_mem_append]
  exact forall₂_congr fun entry hentry => recut_eq_self_iff (hregular entry hentry)

/-- An image that was read from any bytes can be written and read again.  All of it is then as before, but
for the names of the imports that writing cuts: it is the same image if and only if every name has at most 255
bytes, or at most 257 of which the last three are a replacement character. -/
theorem ofBytes_toBytes_of_loaded {bytes : List UInt8} {image : Image}
    (h : ofBytes bytes none = .ok image) :
    ofBytes image.toBytes none = .ok (image.recut none) ∧
      (image.recut none = image ↔
        ∀ entry ∈ image.functions.entries ++ image.globals.entries, Endures entry.2.name) := by
  obtain ⟨hslot, hcode, count, hcount, hloaded⟩ := loaded_of_ofBytes h
  have hread := ofBytes_toBytes hcode (Nat.lt_of_le_of_lt hloaded.few hcount) []
  rw [List.append_nil] at hread
  exact ⟨hread, recut_none_eq_self_iff hslot hloaded.regular⟩

/-- The bytes of an image without code that imports one function, whose name is given in bytes. -/
def oneImport (name : List UInt8) : List UInt8 :=
  mark ++ wordsBytes [0, 0, 0, 0, 0, 1, UInt16.ofNat name.length] ++ name ++
    wordsBytes [7, 1, functionKind, typeWord .int]

/-- The image that imports one function. -/
def importing (name : List Char) : Image :=
  { ofCode #[] with functions := .ofList [(7, ⟨String.ofList name, .int⟩)] }

set_option maxRecDepth 4000 in
/-- A name that the limit cuts inside of its last character. -/
theorem ofBytes_toBytes_of_loaded_severed :
    let image := importing (List.replicate 254 'n' ++ [Text.replacement])
    ofBytes (oneImport (List.replicate 254 0x6e ++ [0xc3, 0xa9])) none = .ok image ∧
      ofBytes image.toBytes none = .ok (image.recut none) ∧ image.recut none = image := by
  intro image
  have hread : ofBytes (oneImport (List.replicate 254 0x6e ++ [0xc3, 0xa9])) none = .ok image := by rfl
  have hlength : (Text.bytesOf (List.replicate 254 'n' ++ [Text.replacement])).length = 257 := by
    rw [Text.bytesOf_append, List.length_append, Text.bytesOf, List.length_flatMap, List.map_replicate,
      List.sum_replicate_nat]
    rfl
  have hendures : ∀ entry ∈ image.functions.entries ++ image.globals.entries, Endures entry.2.name := by
    intro entry hentry
    obtain rfl := List.mem_singleton.1 hentry
    rw [Endures, Text.encode_eq, String.toList_ofList, hlength]
    exact .inr ⟨Nat.le_refl _, List.getLast?_concat⟩
  obtain ⟨hagain, hsame⟩ := ofBytes_toBytes_of_loaded hread
  exact ⟨hread, hagain, hsame.2 hendures⟩

/-- A name of 86 bytes that are no text is read as 86 replacement characters, of which 85 are written. -/
theorem not_lossless_garbled :
    let image := importing (List.replicate 86 Text.replacement)
    let again := importing (List.replicate 85 Text.replacement)
    ofBytes (oneImport (List.replicate 86 0xff)) none = .ok image ∧
      ofBytes image.toBytes none = .ok again ∧ again ≠ image := by
  intro image again
  have hread := @ofBytes_toBytes image (by decide) (by decide) []
  have hcut : image.recut none = again := by decide +kernel
  rw [List.append_nil, hcut] at hread
  exact ⟨rfl, hread, by decide +kernel⟩

end Parley.Image
