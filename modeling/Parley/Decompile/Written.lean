import Parley.CommandFault
import Parley.Decompile.Decompile
import Parley.Settings
set_option autoImplicit false

/-!
# Writing a listing

From an image to the text of one of its listings, under the settings of the tool.
-/

namespace Parley

/-- Which listing of a conversation. -/
inductive ListingKind where
  /-- The functions as source. -/
  | source
  /-- All instructions with labels and references. -/
  | instructions
  deriving DecidableEq

/-- The pass that a listing needs. -/
def ListingKind.pass : ListingKind → Pass Unit
  | source => Pass.decompile
  | instructions => Pass.disassemble

/-- The text of a listing after its pass. -/
def ListingKind.render (kind : ListingKind) (options : RenderOptions) (d : Decompilation) : String :=
  match kind with
  | source => d.renderSource options
  | instructions => d.renderInstructions options

/-- The listing of an image of the conversation with `name`. -/
def writeListing (image : Image) (strings : List String) (settings : Settings)
    (name : Option String) (kind : ListingKind) : Except CommandFault String :=
  match kind.pass (Decompilation.ofImage image strings settings.naming) with
  | .ok _ d => .ok (kind.render (settings.layout name) d)
  | .error fault _ => .error (.decompile fault)

end Parley
