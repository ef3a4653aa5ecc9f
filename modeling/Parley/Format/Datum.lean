import Parley.SortedMap
set_option autoImplicit false

/-!
# Values of data formats

What the files of the tool hold once their format is read: numbers, texts, lists and tables.  Only
natural numbers have a value here, because nothing that is read takes any other.  The accessors give a
value if it is of the wanted kind.
-/

namespace Parley

/-- Reads something off the front of a text; the result comes with what stands behind it. -/
abbrev TextReader (α : Type) := List Char → Option (α × List Char)

/-- A value of a data format. -/
inductive Datum where
  | null
  | boolean (value : Bool)
  /-- A number, with its value if it is written as a natural number. -/
  | number (value? : Option Nat)
  /-- A text, without content if it is no sequence of Unicode characters. -/
  | text (content? : Option String)
  | list (items : List Datum)
  /-- Named values in the order in which they are written. -/
  | table (fields : List (Option String × Datum))

namespace Datum

/-! ## Single values -/

/-- A natural number of at most `limit`. -/
def natural? (limit : Nat) : Datum → Option Nat
  | number value? => value?.filter (· ≤ limit)
  | _ => none

/-- A 16-bit word. -/
def word? (d : Datum) : Option UInt16 :=
  (d.natural? 65535).map UInt16.ofNat

/-- A truth value. -/
def boolean? : Datum → Option Bool
  | boolean value => some value
  | _ => none

/-- A text. -/
def text? : Datum → Option String
  | text content? => content?
  | _ => none

/-! ## Lists and tables -/

/-- The items of a list, if each can be read. -/
def listOf? {α : Type} (item? : Datum → Option α) : Datum → Option (List α)
  | list items => items.mapM item?
  | _ => none

/-- A name and its value, if both can be read. -/
def namedValue? {α : Type} (value? : Datum → Option α) (field : Option String × Datum) :
    Option (String × α) := do
  let name ← field.1
  let value ← value? field.2
  pure (name, value)

/-- The values of a table by name, if each can be read; of two values with one name the later counts. -/
def tableOf? {α : Type} (value? : Datum → Option α) : Datum → Option (SortedMap String α)
  | table fields =>
    (fields.mapM (namedValue? value?)).map SortedMap.ofList
  | _ => none

/-! ## Records -/

/-- What becomes of fields that a record does not know. -/
inductive UnknownFields where
  | refused
  | ignored
  deriving DecidableEq

/-- The field with this name and value, if the record has it. -/
def knownField? (names : List String) (unknown : UnknownFields) :
    Option String × Datum → Option (List (String × Datum))
  | (none, _) => none
  | (some name, d) =>
    if name ∈ names then some [(name, d)]
    else
      match unknown with
      | .refused => none
      | .ignored => some []

/-- The fields of a record with the given names.  A record is a table that names each field at most once,
or a list of the first of its fields in the given order. -/
def record? (names : List String) (unknown : UnknownFields) :
    Datum → Option (List (String × Datum))
  | list items => if items.length ≤ names.length then some (names.zip items) else none
  | table fields => do
    let known ← fields.mapM (knownField? names unknown)
    if (known.flatten.map (·.1)).Nodup then some known.flatten else none
  | _ => none

/-- The value of a field that may be left out, by itself or as null. -/
def optional? {α : Type} (read? : Datum → Option α) (fields : List (String × Datum))
    (name : String) : Option (Option α) :=
  match fields.lookup name with
  | none | some null => some none
  | some d => (read? d).map some

/-- The value of a field that has a default when it is left out. -/
def defaulted? {α : Type} (read? : Datum → Option α) (default : α) (fields : List (String × Datum))
    (name : String) : Option α :=
  match fields.lookup name with
  | none => some default
  | some d => read? d

end Datum

end Parley
