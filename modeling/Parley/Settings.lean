import Parley.CommandFault
import Parley.Decompile.Render
import Parley.Format.Json
import Parley.Format.Toml
import Parley.Text.FileName
set_option autoImplicit false

/-!
# Settings

What all commands share: the layout of listings, the names of functions, and how long a run may take.
Settings come from a JSON or TOML file in which every field may be left out and none may be unknown.
-/

namespace Parley

/-- A word as the user writes it, with blanks around it: decimal, or hexadecimal behind `0x` or `0X`. -/
def parseNumber (text : String) : Option UInt16 :=
  match Text.trim text.toList with
  | '0' :: 'x' :: digits | '0' :: 'X' :: digits => Text.word? 16 digits
  | digits => Text.word? 10 digits

/-- The settings that all commands share. -/
structure Settings where
  /-- The number of spaces for each level of indentation. -/
  indentWidth : Nat
  /-- Whether decompiled listings show the replaced instructions as comments. -/
  showsInstructions : Bool
  /-- Whether the helper functions of the first game have their names. -/
  wellKnownNames : Bool
  /-- Names of functions by position. -/
  functionNames : SortedMap UInt16 String
  /-- The most instructions that a run carries out. -/
  maxSteps : Nat

namespace Settings

/-- The settings without a file. -/
def standard : Settings := ⟨3, false, true, .empty, 100000⟩

/-- How functions are named. -/
def naming (settings : Settings) : NamingOptions :=
  ⟨settings.wellKnownNames, settings.functionNames⟩

/-- How a listing of the conversation with `name` is laid out. -/
def layout (settings : Settings) (name : Option String) : RenderOptions :=
  ⟨settings.indentWidth, name, settings.showsInstructions⟩

/-! ## Settings from a file -/

/-- The largest number in a settings file. -/
def numberLimit : Nat := UInt64.size - 1

/-- The fields of a settings file, in order. -/
def fieldNames : List String :=
  ["indent_width", "show_disassembly_comments", "well_known_names", "function_names", "max_steps"]

/-- Settings in which functions are still named by the text of their position. -/
def ofDatum? (d : Datum) : Option (Settings × SortedMap String String) := do
  let fields ← d.record? fieldNames .refused
  let indentWidth ← Datum.optional? (Datum.natural? numberLimit) fields "indent_width"
  let showsInstructions ← Datum.optional? Datum.boolean? fields "show_disassembly_comments"
  let wellKnownNames ← Datum.optional? Datum.boolean? fields "well_known_names"
  let names ← Datum.defaulted? (Datum.tableOf? Datum.text?) .empty fields "function_names"
  let maxSteps ← Datum.optional? (Datum.natural? numberLimit) fields "max_steps"
  let settings : Settings := {
    indentWidth := indentWidth.getD standard.indentWidth
    showsInstructions := showsInstructions.getD standard.showsInstructions
    wellKnownNames := wellKnownNames.getD standard.wellKnownNames
    functionNames := .empty
    maxSteps := maxSteps.getD standard.maxSteps }
  pure (settings, names)

/-- Name a function by the text of its position. -/
def nameFunction (settings : Settings) (entry : String × String) : Except CommandFault Settings :=
  match parseNumber entry.1 with
  | some pos =>
    .ok { settings with functionNames := settings.functionNames.insert pos entry.2 }
  | none => .error (.configuration ("bad function position '" ++ entry.1 ++ "'"))

/-- The value of a settings file in its format, which is JSON for the extension `json` and TOML for all
others. -/
def parse (path text : String) : Except CommandFault (Settings × SortedMap String String) :=
  if Text.hasExtension "json" path then
    match (Json.read? text).bind ofDatum? with
    | some parsed => .ok parsed
    | none => .error (.json path)
  else
    match (Toml.read? text).bind ofDatum? with
    | some parsed => .ok parsed
    | none => .error (.toml path)

/-- The settings in a file.  Functions are named in the order of the texts of their positions, so of two
texts for one position the later in that order counts. -/
def ofFile (path : String) (file : FileState) : Except CommandFault Settings := do
  let text ← file.text path
  let (settings, names) ← parse path text
  names.entries.foldlM nameFunction settings

end Settings

end Parley
