import Parley.Proofs.Image.Reading
import Parley.Proofs.Text.Encoding
import Parley.Proofs.SortedMap
set_option autoImplicit false

/-!
# Reading written images

An image that is written is read back, whatever stands behind its bytes.  What is written of an import is
at most 255 bytes of its name, and an unknown type as `void`; so the image that is read back is the one with
its names cut.  Names that fit and do not end in a NUL are kept.
-/

namespace Parley

open Binary

/-- The import as it is read back when it was written. -/
def Import.recut (item : Import) : Import :=
  ⟨Image.nameOfBytes (Image.nameBytes item.name), if item.type = .unknown then .void else item.type⟩

/-- An import as a read image has it: its name does not end in a NUL, and its type is known. -/
structure Import.Regular (item : Import) : Prop where
  ends : item.name.toList.getLast? ≠ some '\x00'
  known : item.type ≠ .unknown

/-- An import that is written as a whole. -/
structure Import.Fits (item : Import) : Prop extends item.Regular where
  short : (Text.encode item.name).length ≤ Image.nameLimit

instance (item : Import) : Decidable item.Fits :=
  decidable_of_iff ((item.name.toList.getLast? ≠ some '\x00' ∧ item.type ≠ .unknown) ∧
      (Text.encode item.name).length ≤ Image.nameLimit)
    ⟨fun h => ⟨⟨h.1.1, h.1.2⟩, h.2⟩, fun h => ⟨⟨h.ends, h.known⟩, h.short⟩⟩

namespace Image

/-- The image as it is read back, of the conversation `slot`, when it was written. -/
def recut (image : Image) (slot : Option UInt16) : Image :=
  { image with
    slot
    functions := image.functions.mapValues Import.recut
    globals := image.globals.mapValues Import.recut }

/-! ## One import -/

theorem typeOfWord?_typeWord (type : DataType) :
    typeOfWord? (typeWord type) = some (if type = .unknown then .void else type) := by
  cases type <;> rfl

theorem length_nameBytes (name : String) : (nameBytes name).length ≤ nameLimit := by
  rw [nameBytes, List.length_take]
  exact Nat.min_le_left _ _

/-- The image with an import of a kind put into its table. -/
def withImport (image : Image) (kind : UInt16) (entry : UInt16 × Import) : Image :=
  if kind = functionKind then { image with functions := image.functions.insert entry.1 entry.2 }
  else { image with globals := image.globals.insert entry.1 entry.2 }

theorem reads_import {kind : UInt16} (hkind : kind = functionKind ∨ kind = globalKind) (index : Nat)
    (image : Image) (entry : UInt16 × Import) :
    Reads (readImport index image) (importBytes kind entry)
      (image.withImport kind (entry.1, entry.2.recut)) := by
  have hlength : (UInt16.ofNat (nameBytes entry.2.name).length).toNat = (nameBytes entry.2.name).length := by
    have := length_nameBytes entry.2.name
    exact UInt16.toNat_ofNat_of_lt' (by simp [nameLimit, UInt16.size] at *; omega)
  have hname := reads_bytes (nameBytes entry.2.name)
  rw [← hlength] at hname
  simp only [importBytes, wordsBytes_cons, wordsBytes_nil, List.append_assoc]
  refine (reads_word _).bind (hname.bind ((reads_word _).bind ((reads_word _).bind
    ((reads_word _).bind ((reads_word _).bind ?_)))))
  rw [typeOfWord?_typeWord]
  rcases hkind with rfl | rfl
  · exact reads_pure _
  · exact reads_pure _

/-! ## All imports -/

theorem readImports_succ (index : Nat) (image : Image) (count : Nat) :
    readImports index image (count + 1) =
      (readImport index image >>= fun image => readImports (index + 1) image count : Reader Image) := by
  funext cursor
  change _ = Except.bind (readImport index image cursor) _
  rw [readImports]
  cases readImport index image cursor <;> rfl

/-- Imports of a kind, with further imports behind them. -/
theorem reads_imports {kind : UInt16} (hkind : kind = functionKind ∨ kind = globalKind)
    (entries : List (UInt16 × Import)) (count : Nat) {index : Nat} {image result : Image}
    {bytes : List UInt8}
    (hbehind : Reads (readImports (index + entries.length)
      (entries.foldl (fun image entry => image.withImport kind (entry.1, entry.2.recut)) image) count)
      bytes result) :
    Reads (readImports index image (entries.length + count))
      (entries.flatMap (importBytes kind) ++ bytes) result := by
  induction entries generalizing index image with
  | nil => simpa using hbehind
  | cons entry entries ih =>
    rw [List.length_cons, Nat.add_right_comm, readImports_succ, List.flatMap_cons, List.append_assoc]
    refine (reads_import hkind index image entry).bind (ih ?_)
    rwa [List.length_cons, ← Nat.add_assoc, Nat.add_right_comm] at hbehind

theorem foldl_functions (entries : List (UInt16 × Import)) (image : Image) :
    entries.foldl (fun image entry => image.withImport functionKind (entry.1, entry.2.recut)) image =
      { image with
        functions := image.functions.insertAll (entries.map fun entry => (entry.1, entry.2.recut)) } := by
  induction entries generalizing image with
  | nil => rfl
  | cons entry entries ih => exact ih _

theorem foldl_globals (entries : List (UInt16 × Import)) (image : Image) :
    entries.foldl (fun image entry => image.withImport globalKind (entry.1, entry.2.recut)) image =
      { image with
        globals := image.globals.insertAll (entries.map fun entry => (entry.1, entry.2.recut)) } := by
  induction entries generalizing image with
  | nil => rfl
  | cons entry entries ih => exact ih _

/-! ## The image -/

/-- The bytes of an image are read as the image with its names cut. -/
theorem reads_image {image : Image} (hcode : image.code.size < UInt16.size)
    (himports : image.functions.size + image.globals.size < UInt16.size) (slot : Option UInt16) :
    Reads (read slot) image.toBytes (image.recut slot) := by
  have hcode' : (UInt16.ofNat image.code.size).toNat = image.code.size := UInt16.toNat_ofNat_of_lt' hcode
  have himports' := UInt16.toNat_ofNat_of_lt' himports
  have hwords := reads_words image.code
  rw [← hcode'] at hwords
  have htables : Reads
      (readImports 0 { ofCode #[] with
        slot, stringBlock := image.stringBlock, reservedGlobals := image.reservedGlobals }
        (UInt16.ofNat (image.functions.size + image.globals.size)).toNat)
      (image.functions.entries.flatMap (importBytes functionKind) ++
        (image.globals.entries.flatMap (importBytes globalKind) ++ []))
      { image.recut slot with code := #[] } := by
    rw [himports']
    refine reads_imports (.inl rfl) _ image.globals.size (reads_imports (.inr rfl) _ 0 ?_)
    rw [foldl_functions, foldl_globals]
    have hfunctions := SortedMap.insertAll_empty_entries (image.functions.mapValues Import.recut)
    have hglobals := SortedMap.insertAll_empty_entries (image.globals.mapValues Import.recut)
    rw [SortedMap.entries_mapValues] at hfunctions hglobals
    simp only [ofCode, hfunctions, hglobals]
    exact reads_pure _
  simp only [List.append_nil] at htables
  have hbytes : image.toBytes = mark ++ (wordBytes (UInt16.ofNat image.code.size) ++ ([0, 0, 0, 0] ++
      (wordBytes image.stringBlock ++ (wordBytes image.reservedGlobals ++
        (wordBytes (UInt16.ofNat (image.functions.size + image.globals.size)) ++
          ((image.functions.entries.flatMap (importBytes functionKind) ++
            image.globals.entries.flatMap (importBytes globalKind)) ++
              (wordsBytes image.code.toList ++ []))))))) := by
    simp only [toBytes, wordsBytes_cons, wordsBytes_nil, List.append_assoc, List.append_nil]
    rfl
  rw [hbytes]
  refine (reads_bytes mark).bind ((reads_word _).bind ((reads_bytes [0, 0, 0, 0]).bind
    ((reads_word _).bind ((reads_word _).bind ((reads_word _).bind (htables.bind
      (hwords.bind ?_)))))))
  exact reads_pure _

/-- A written image is read back with its names cut, whatever stands behind it. -/
theorem ofBytes_toBytes {image : Image} (hcode : image.code.size < UInt16.size)
    (himports : image.functions.size + image.globals.size < UInt16.size) (behind : List UInt8) :
    ofBytes (image.toBytes ++ behind) none = .ok (image.recut none) := by
  have hread : (read none).run (.start (image.toBytes ++ behind)) =
      .ok (image.recut none, ⟨behind, 0 + image.toBytes.length⟩) :=
    reads_image hcode himports none behind 0
  rw [ofBytes, hread]

/-! ## Names -/

/-- A name that is the same after writing and reading: it fits, or it ends in a replacement character that
the cut goes through, which becomes a replacement character again. -/
def Endures (name : String) : Prop :=
  (Text.encode name).length ≤ nameLimit ∨
    ((Text.encode name).length ≤ nameLimit + 2 ∧ name.toList.getLast? = some Text.replacement)

instance (name : String) : Decidable (Endures name) := inferInstanceAs (Decidable (_ ∨ _))

theorem nameOfBytes_nameBytes (name : String) : nameOfBytes (nameBytes name) =
    String.ofList (Text.dropEndWhile (· == '\x00') (Text.cutAt nameLimit name.toList)) := by
  rw [nameOfBytes, nameBytes, List.take_take, Nat.min_self, Text.encode_eq,
    Text.decodeLossy_take_bytesOf]

theorem nameOfBytes_nameBytes_eq_iff {name : String} (hends : name.toList.getLast? ≠ some '\x00') :
    nameOfBytes (nameBytes name) = name ↔ Endures name := by
  have hlast (c : Char) (hc : name.toList.getLast? = some c) : (c == '\x00') = false := by
    rw [hc] at hends
    simpa using hends
  rw [nameOfBytes_nameBytes, ← String.toList_inj, String.toList_ofList,
    Text.dropEndWhile_cutAt_eq_self_iff hlast, Text.cutAt_eq_self_iff, Endures, Text.encode_eq]

theorem recut_eq_self_iff {item : Import} (h : item.Regular) : item.recut = item ↔ Endures item.name := by
  rw [← nameOfBytes_nameBytes_eq_iff h.ends, Import.recut, if_neg h.known]
  cases item
  simp

/-! ## Images that fit -/

theorem recut_eq_self_of_fits {image : Image}
    (hfits : ∀ entry ∈ image.functions.entries ++ image.globals.entries, entry.2.Fits)
    (slot : Option UInt16) : image.recut slot = { image with slot } := by
  have hrecut (entry : UInt16 × Import) (hentry : entry ∈ image.functions.entries ++ image.globals.entries) :
      entry.2.recut = entry.2 :=
    (recut_eq_self_iff (hfits entry hentry).toRegular).2 (.inl (hfits entry hentry).short)
  rw [recut, SortedMap.mapValues_eq_self_iff.2 fun entry h => hrecut entry (List.mem_append_left _ h),
    SortedMap.mapValues_eq_self_iff.2 fun entry h => hrecut entry (List.mem_append_right _ h)]

/-- An image whose code and imports can be counted in a word, and whose imports are written as a whole, is
read back from its bytes, whatever stands behind them. -/
theorem ofBytes_toBytes_of_fits {image : Image} (hcode : image.code.size ≤ 65535)
    (himports : image.functions.size + image.globals.size ≤ 65535)
    (hfits : ∀ entry ∈ image.functions.entries ++ image.globals.entries, entry.2.Fits)
    (behind : List UInt8) : ofBytes (image.toBytes ++ behind) none = .ok { image with slot := none } := by
  rw [ofBytes_toBytes (Nat.lt_succ_of_le hcode) (Nat.lt_succ_of_le himports),
    recut_eq_self_of_fits hfits]

/-- An image with two functions and two globals. -/
def encounter : Image :=
  { slot := some 23
    stringBlock := 0x0e01
    reservedGlobals := 0x1f
    functions := .ofList [(3, ⟨"babl_menu", .int⟩), (4, ⟨"say_hello", .void⟩)]
    globals := .ofList [(0, ⟨"play_hunger", .int⟩), (1, ⟨"npc_name", .string⟩)]
    code := #[0x0016, 0x0001, 0x0015] }

theorem ofBytes_toBytes_of_fits_encounter : encounter.code.size ≤ 65535 ∧
    encounter.functions.size + encounter.globals.size ≤ 65535 ∧
    (∀ entry ∈ encounter.functions.entries ++ encounter.globals.entries, entry.2.Fits) ∧
    ofBytes (encounter.toBytes ++ [0xff, 0x00]) none = .ok { encounter with slot := none } := by
  have hcode : encounter.code.size ≤ 65535 := by decide
  have himports : encounter.functions.size + encounter.globals.size ≤ 65535 := by decide
  have hfits : ∀ entry ∈ encounter.functions.entries ++ encounter.globals.entries, entry.2.Fits := by
    decide
  exact ⟨hcode, himports, hfits, ofBytes_toBytes_of_fits hcode himports hfits _⟩

end Image

end Parley
