import Parley.Image.Basic
set_option autoImplicit false

/-!
# Parameters of imported functions

The parameter lists of the imported functions whose arguments are known.
-/

namespace Parley

/-- One parameter of an imported function. -/
structure Parameter where
  type : DataType
  /-- Whether it is the address of a list that a zero ends. -/
  isArray : Bool
  deriving DecidableEq

/-- The parameters of an imported function, where they are known. -/
def parameters? (name : String) : Option (List Parameter) :=
  match name with
  | "babl_menu" => some [⟨.string, true⟩]
  | "babl_fmenu" => some [⟨.string, true⟩, ⟨.int, true⟩]
  | "length" => some [⟨.string, false⟩]
  | "compare" | "contains" | "sex" => some [⟨.string, false⟩, ⟨.string, false⟩]
  | "print" => some [⟨.string, false⟩]
  | _ => none

end Parley
