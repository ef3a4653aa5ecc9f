set_option autoImplicit false

/-!
# Menus

Two imported functions offer a list of answers to choose from: one offers all of them, the other those
whose flag in a second list is set.
-/

namespace Parley

/-- The imported functions that offer a menu. -/
inductive MenuKind where
  /-- All answers are offered. -/
  | plain
  /-- The answers whose flag is set are offered. -/
  | flagged
  deriving DecidableEq

/-- The kind of menu that an imported function offers, if it offers one. -/
def MenuKind.ofName? (name : String) : Option MenuKind :=
  if name = "babl_menu" then some .plain
  else if name = "babl_fmenu" then some .flagged
  else none

end Parley
