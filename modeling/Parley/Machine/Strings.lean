import Parley.Text.Number
set_option autoImplicit false

/-!
# Local strings and placeholders

Strings are known by their numbers: first those of the conversation's string block, then those made
while it runs.  A text may hold placeholders, an at sign with two letters and perhaps a number: the
first letter says where a value is read (`G` a global, `S` a slot of the frame, `P` the slot that a
slot of the frame points to), the second how it is shown (`S` as the local string with that id, `I` as
a number).  `pieces` splits a text into placeholders and the characters between them in one pass from
left to right, so what a placeholder is replaced by is never looked at again.
-/

namespace Parley

/-! ## Local strings -/

/-- The strings of a conversation by their ids. -/
structure LocalStrings where
  texts : Array String
  deriving DecidableEq

namespace LocalStrings

/-- The strings of a string block. -/
def ofList (texts : List String) : LocalStrings := ⟨texts.toArray⟩

/-- The string with an id. -/
def get? (strings : LocalStrings) (id : UInt16) : Option String := strings.texts[id.toNat]?

/-- The number of strings. -/
def size (strings : LocalStrings) : Nat := strings.texts.size

/-- Add a string; its id is the number of strings before it. -/
def add (strings : LocalStrings) (text : String) : UInt16 × LocalStrings :=
  (UInt16.ofNat strings.size, ⟨strings.texts.push text⟩)

/-- Add strings one behind the other. -/
def addAll (strings : LocalStrings) (texts : List String) : LocalStrings :=
  ⟨strings.texts ++ texts.toArray⟩

end LocalStrings

/-! ## Placeholders -/

/-- Where a placeholder reads its value. -/
inductive PlaceholderSource where
  /-- A global slot. -/
  | global
  /-- The slot at a distance from the base pointer. -/
  | frame
  /-- The slot whose number stands in the slot at a distance from the base pointer. -/
  | pointer
  deriving DecidableEq

/-- How a placeholder shows its value. -/
inductive PlaceholderKind where
  /-- As the local string with that id. -/
  | string
  /-- As a decimal number. -/
  | integer
  deriving DecidableEq

/-- A placeholder in a text. -/
structure Placeholder where
  source : PlaceholderSource
  kind : PlaceholderKind
  /-- The number behind the letters, zero if there is none. -/
  param : Int
  /-- The number of characters of the placeholder. -/
  length : Nat
  deriving DecidableEq

namespace Placeholder

/-- The source that a letter stands for. -/
def source? : Char → Option PlaceholderSource
  | 'G' => some .global
  | 'S' => some .frame
  | 'P' => some .pointer
  | _ => none

/-- The kind that a letter stands for. -/
def kind? : Char → Option PlaceholderKind
  | 'S' => some .string
  | 'I' => some .integer
  | _ => none

/-- The longest numeral at the front of a text: digits, with an optional minus sign before them.  A minus
sign without digits is no numeral. -/
def numeral (text : List Char) : List Char :=
  match text with
  | '-' :: rest =>
    match rest.takeWhile Text.isDecimalDigit with
    | [] => []
    | digits => '-' :: digits
  | _ => text.takeWhile Text.isDecimalDigit

/-- The value of a numeral; no numeral at all is zero. -/
def param? (numeral : List Char) : Option Int :=
  if numeral.isEmpty then some 0 else Text.integer32? numeral

/-- The placeholder at the front of a text, if there is one.  A number of more than 32 bits makes none. -/
def ofText? (text : List Char) : Option Placeholder :=
  match text with
  | '@' :: sourceLetter :: kindLetter :: rest => do
    let source ← source? sourceLetter
    let kind ← kind? kindLetter
    let digits := numeral rest
    let param ← param? digits
    pure ⟨source, kind, param, 3 + digits.length⟩
  | _ => none

/-- A part of a text with placeholders. -/
inductive Piece where
  /-- A character that stands for itself. -/
  | plain (c : Char)
  /-- A placeholder. -/
  | hole (placeholder : Placeholder)
  deriving DecidableEq

/-- The pieces of a text, from left to right. -/
def pieces : List Char → List Piece
  | [] => []
  | c :: rest =>
    match ofText? (c :: rest) with
    | some placeholder => .hole placeholder :: pieces (rest.drop (placeholder.length - 1))
    | none => .plain c :: pieces rest
  termination_by text => text.length
  decreasing_by all_goals simp only [List.length_drop, List.length_cons]; omega

/-- What a placeholder of a kind shows of a value, where `string` gives the local strings. -/
def shown (string : UInt16 → String) (kind : PlaceholderKind) (value : UInt16) : String :=
  match kind with
  | .string => string value
  | .integer => Text.decimal value

section Reading

variable {m : Type → Type} [Monad m]

/-- The text that a piece is replaced by, where `read` gives the values of placeholders. -/
def renderPiece (read : Placeholder → m UInt16) (string : UInt16 → String) : Piece → m (List Char)
  | .plain c => pure [c]
  | .hole placeholder => do
    let value ← read placeholder
    pure (shown string placeholder.kind value).toList

/-- The text that pieces are replaced by. -/
def render (read : Placeholder → m UInt16) (string : UInt16 → String) (parts : List Piece) :
    m (List Char) := do
  let texts ← parts.mapM (renderPiece read string)
  pure texts.flatten

/-- A text with its placeholders replaced, whose values are read one after the other. -/
def expandWith (read : Placeholder → m UInt16) (string : UInt16 → String) (text : String) :
    m String := do
  let out ← render read string (pieces text.toList)
  pure (String.ofList out)

end Reading

/-- A text with its placeholders replaced, where reading a value has no effect. -/
def expand (read : Placeholder → UInt16) (string : UInt16 → String) (text : String) : String :=
  Id.run (expandWith (fun placeholder => pure (read placeholder)) string text)

/-- The placeholders of a text, in order. -/
def allIn (text : String) : List Placeholder :=
  (pieces text.toList).filterMap fun
    | .plain _ => none
    | .hole placeholder => some placeholder

end Placeholder

end Parley
