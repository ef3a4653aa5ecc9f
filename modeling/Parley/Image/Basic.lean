import Parley.SortedMap
import Parley.Code.Instruction
set_option autoImplicit false

/-!
# Conversation images

An image holds one conversation: the code, the functions and globals it imports, the number of global
slots it reserves and the block of strings it speaks from.  Three published conversations have broken
code; `Image.applyPatches` mends the one that a slot number names.
-/

namespace Parley

/-- The type of an imported item, of a function's result, or of a local variable. -/
inductive DataType where
  | void
  | int
  | string
  /-- Nothing is known about the type. -/
  | unknown
  deriving DecidableEq, Inhabited

/-- The spelling of a type in function headers. -/
def DataType.text : DataType → String
  | .void => "void"
  | .int => "int"
  | .string => "string"
  | .unknown => "unknown"

/-- A function or global that a conversation imports. -/
structure Import where
  name : String
  type : DataType
  deriving DecidableEq

/-- Imported items by their ids. -/
abbrev ImportTable := SortedMap UInt16 Import

/-- One conversation. -/
structure Image where
  /-- The number of the conversation, when it is known. -/
  slot : Option UInt16
  /-- The number of the conversation's string block. -/
  stringBlock : UInt16
  /-- The number of global slots at the bottom of the stack. -/
  reservedGlobals : UInt16
  functions : ImportTable
  globals : ImportTable
  code : CodeWords
  deriving DecidableEq

namespace Image

/-- The image of bare code. -/
def ofCode (code : CodeWords) : Image := ⟨none, 0, 0, .empty, .empty, code⟩

instance : Inhabited Image := ⟨ofCode #[]⟩

/-- The name of the imported function with an id. -/
def functionName? (image : Image) (id : UInt16) : Option String :=
  (image.functions.get? id).map (·.name)

/-- The name of the imported global at a slot. -/
def globalName? (image : Image) (slot : UInt16) : Option String :=
  (image.globals.get? slot).map (·.name)

/-! ## Patches -/

/-- The replacement of one code word of one conversation. -/
structure Patch where
  slot : UInt16
  pos : Nat
  word : UInt16

/-- The known patches: an opcode that should be a push of a literal, a call to nowhere, and the size of
a random choice that is one short of the answers it selects from. -/
def patches : List Patch := [⟨6, 0x076e, 0x0016⟩, ⟨15, 0x0584, 0x0666⟩, ⟨23, 0x04fd, 0x0003⟩]

/-- Whether a patch is for the conversation `slot` and lies inside the code. -/
def Patch.applies (patch : Patch) (slot : UInt16) (code : CodeWords) : Bool :=
  patch.slot == slot && patch.pos < code.size

/-- The image with the patches of conversation `slot`, and their number.  A patch behind the end of the
code is left out. -/
def applyPatches (image : Image) (slot : UInt16) : Image × Nat :=
  let applied := patches.filter (·.applies slot image.code)
  let code := applied.foldl (fun code patch => code.setIfInBounds patch.pos patch.word) image.code
  ({ image with code }, applied.length)

end Image

end Parley
