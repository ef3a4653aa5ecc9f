import Parley.SortedMap
import Parley.Text.Number
set_option autoImplicit false

/-!
# Names of functions and labels

A local function is called by the name that was given for its position, or by the name of the helper
function that the conversations of the first game have there, or after its position.
-/

namespace Parley

/-- The helper functions that every conversation of the first game has at fixed positions. -/
def wellKnownFunctions : List (UInt16 × String) := [
  (0x0012, "set_global_and_exit"),
  (0x0020, "is_npc_not_attacking"),
  (0x0063, "set_npc_attitude_upset_flee_player_and_exit"),
  (0x0081, "target_player_and_exit"),
  (0x008b, "target_player_and_exit"),
  (0x00b1, "set_npc_attitude_and_exit"),
  (0x00c2, "set_npc_attitude_mellow_and_exit"),
  (0x00d1, "set_npc_attitude_upset_and_exit"),
  (0x00e0, "set_global_and_exit2"),
  (0x00ea, "get_game_time"),
  (0x0106, "subtract_and_check_game_time"),
  (0x018f, "subtract_and_compare_game_times")]

/-- The name of the helper function at a position. -/
def wellKnownName? (pos : UInt16) : Option String := wellKnownFunctions.lookup pos

/-- The name of the function at which a conversation starts. -/
def startFunction : String := "start"

/-- The name of the label at a position. -/
def labelName (pos : UInt16) : String := "label_" ++ Text.hexWord pos

/-- What the names of functions begin with that nothing refers to. -/
def unusedMark : String := "unused_"

/-- The name of a function that nothing refers to. -/
def unusedName (pos : UInt16) : String := unusedMark ++ Text.hexWord pos

/-- Whether a text begins with another. -/
def beginsWith (mark text : String) : Bool := mark.toList.isPrefixOf text.toList

/-- Whether a name is that of a function that nothing refers to. -/
def isUnusedName (name : String) : Bool := beginsWith unusedMark name

/-- How local functions are named. -/
structure NamingOptions where
  /-- Whether the helper functions of the first game have their names. -/
  wellKnownNames : Bool
  /-- The names given by position; they come before all others. -/
  functionNames : SortedMap UInt16 String

namespace NamingOptions

/-- The name of the function at a position. -/
def functionName (options : NamingOptions) (pos : UInt16) : String :=
  match options.functionNames.get? pos with
  | some name => name
  | none =>
    match if options.wellKnownNames then wellKnownName? pos else none with
    | some name => name
    | none => "func_" ++ Text.hexWord pos

end NamingOptions

end Parley
