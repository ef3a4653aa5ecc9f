import Parley.Text.Number
import Parley.Text.Lossy
import Parley.Text.Blank
import Parley.Image.Basic
set_option autoImplicit false

/-!
# The binary form of an image

All numbers are little-endian.  A header of sixteen bytes holds a mark, the number of code words, two
empty words, the string block, the number of reserved globals and the number of imports; the imports
follow, then the code.  An import is its name with the length before it, its id, a word that is always
one, its kind and its type.  The mark is written and never checked.

Reading keeps the first 255 bytes of a name, replaces what is no text in them and drops trailing NULs.
-/

namespace Parley

/-! ## Faults -/

/-- The part of an import that can hold an unknown number. -/
inductive ImportField where
  | returnType
  | kind
  deriving DecidableEq

/-- The name of a part of an import. -/
def ImportField.text : ImportField → String
  | .returnType => "return type"
  | .kind => "import kind"

/-- Why bytes are no image, or no saved globals. -/
inductive LoadFault where
  /-- The bytes end before the `needed` ones at `offset`. -/
  | unexpectedEnd (offset needed : Nat)
  /-- The import number `index` has an unknown type or kind. -/
  | malformedImport (index : Nat) (field : ImportField) (value : UInt16)
  deriving DecidableEq

/-- The wording of a load fault. -/
def LoadFault.message : LoadFault → String
  | .unexpectedEnd offset needed =>
    "unexpected end of image at offset 0x" ++ Text.hex 1 offset ++
      " (needed " ++ toString needed ++ " bytes)"
  | .malformedImport index field value =>
    "import #" ++ toString index ++ " has unknown " ++ field.text ++ " " ++ Text.hexWordMarked value

namespace Binary

/-! ## Reading bytes -/

/-- A place in a sequence of bytes: those still unread, and how many were read. -/
structure Cursor where
  rest : List UInt8
  offset : Nat

/-- A reader takes a value from the front of the bytes, or faults. -/
abbrev Reader (α : Type) : Type := StateT Cursor (Except LoadFault) α

/-- The start of a sequence of bytes. -/
def Cursor.start (bytes : List UInt8) : Cursor := ⟨bytes, 0⟩

/-- The first `count` elements of a list, which has that many, and those behind them. -/
def takeExactly? {α : Type} : Nat → List α → Option (List α × List α)
  | 0, xs => some ([], xs)
  | _ + 1, [] => none
  | count + 1, x :: xs => (takeExactly? count xs).map fun (taken, rest) => (x :: taken, rest)

/-- Read `count` bytes. -/
def readBytes (count : Nat) : Reader (List UInt8) := fun cursor =>
  match takeExactly? count cursor.rest with
  | some (taken, rest) => .ok (taken, ⟨rest, cursor.offset + count⟩)
  | none => .error (.unexpectedEnd cursor.offset count)

/-- The word of a low and a high byte. -/
def wordOfBytes (low high : UInt8) : UInt16 := UInt16.ofNat (low.toNat + 256 * high.toNat)

/-- Read a word. -/
def readWord : Reader UInt16 := fun cursor =>
  match cursor.rest with
  | low :: high :: rest => .ok (wordOfBytes low high, ⟨rest, cursor.offset + 2⟩)
  | _ => .error (.unexpectedEnd cursor.offset 2)

/-- Read `count` words behind those already read. -/
def readWordsFrom (words : Array UInt16) : Nat → Reader (Array UInt16)
  | 0, cursor => .ok (words, cursor)
  | count + 1, cursor =>
    match readWord cursor with
    | .ok (word, cursor) => readWordsFrom (words.push word) count cursor
    | .error fault => .error fault

/-- Read `count` words. -/
def readWords (count : Nat) : Reader (Array UInt16) := readWordsFrom #[] count

/-! ## Writing bytes -/

/-- The two bytes of a word. -/
def wordBytes (word : UInt16) : List UInt8 := [word.toUInt8, (word >>> 8).toUInt8]

/-- The bytes of words, one behind the other. -/
def wordsBytes (words : List UInt16) : List UInt8 := words.flatMap wordBytes

end Binary

namespace Image

open Binary

/-! ## The parts of an image -/

/-- The mark at the front of an image. -/
def mark : List UInt8 := [0x28, 0x08, 0x00, 0x00]

/-- The longest name of an import, in bytes. -/
def nameLimit : Nat := 255

/-- The kind of an imported global. -/
def globalKind : UInt16 := 0x010f

/-- The kind of an imported function. -/
def functionKind : UInt16 := 0x0111

/-- The word of a type.  An unknown type is written like `void`. -/
def typeWord : DataType → UInt16
  | .void | .unknown => 0x0000
  | .int => 0x0129
  | .string => 0x012b

/-- The type that a word stands for. -/
def typeOfWord? (word : UInt16) : Option DataType :=
  [DataType.void, .int, .string].find? fun type => typeWord type = word

/-- The name that bytes spell. -/
def nameOfBytes (bytes : List UInt8) : String :=
  String.ofList (Text.dropEndWhile (· == '\x00') (Text.decodeLossy (bytes.take nameLimit)))

/-- The bytes of a name. -/
def nameBytes (name : String) : List UInt8 := (Text.encode name).take nameLimit

/-! ## Reading -/

/-- Read the import number `index` into the tables of an image. -/
def readImport (index : Nat) (image : Image) : Reader Image := do
  let length ← readWord
  let name ← readBytes length.toNat
  let id ← readWord
  let _ ← readWord
  let kind ← readWord
  let returnType ← readWord
  match typeOfWord? returnType with
  | none => throw (.malformedImport index .returnType returnType)
  | some type =>
    let item : Import := ⟨nameOfBytes name, type⟩
    if kind = functionKind then pure { image with functions := image.functions.insert id item }
    else if kind = globalKind then pure { image with globals := image.globals.insert id item }
    else throw (.malformedImport index .kind kind)

/-- Read `count` imports, of which the first has number `index`. -/
def readImports (index : Nat) (image : Image) : Nat → Reader Image
  | 0, cursor => .ok (image, cursor)
  | count + 1, cursor =>
    match readImport index image cursor with
    | .ok (image, cursor) => readImports (index + 1) image count cursor
    | .error fault => .error fault

/-- Read an image of the conversation `slot`, without mending it. -/
def read (slot : Option UInt16) : Reader Image := do
  let _ ← readBytes 4
  let codeSize ← readWord
  let _ ← readBytes 4
  let stringBlock ← readWord
  let reservedGlobals ← readWord
  let importCount ← readWord
  let header : Image := { ofCode #[] with slot, stringBlock, reservedGlobals }
  let image ← readImports 0 header importCount.toNat
  let code ← readWords codeSize.toNat
  pure { image with code }

/-- The image that bytes hold, mended if a slot is given.  Bytes behind the code are passed over. -/
def ofBytes (bytes : List UInt8) (slot : Option UInt16) : Except LoadFault Image :=
  match (read slot).run (.start bytes) with
  | .error fault => .error fault
  | .ok (image, _) =>
    match slot with
    | none => .ok image
    | some slot => .ok (image.applyPatches slot).1

/-! ## Writing -/

/-- The bytes of an import. -/
def importBytes (kind : UInt16) (entry : UInt16 × Import) : List UInt8 :=
  let name := nameBytes entry.2.name
  wordBytes (UInt16.ofNat name.length) ++ name ++
    wordsBytes [entry.1, 1, kind, typeWord entry.2.type]

/-- The bytes of an image: functions before globals, both by their ids.  Counts are written modulo
65536. -/
def toBytes (image : Image) : List UInt8 :=
  mark ++
    wordsBytes [UInt16.ofNat image.code.size, 0, 0, image.stringBlock, image.reservedGlobals,
      UInt16.ofNat (image.functions.size + image.globals.size)] ++
    image.functions.entries.flatMap (importBytes functionKind) ++
    image.globals.entries.flatMap (importBytes globalKind) ++
    wordsBytes image.code.toList

end Image

end Parley
