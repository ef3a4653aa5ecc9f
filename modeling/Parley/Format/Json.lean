import Parley.Format.Datum
import Parley.Text.Blank
import Parley.Text.Number
set_option autoImplicit false

/-!
# JSON

The reader takes exactly one value with blanks around it.  Strings may escape halves of surrogate pairs
that do not match; such a string is read but has no content.  The writer puts each item of a list and
each field of a table on a line of its own.
-/

namespace Parley.Json

/-! ## Blanks, numbers and literals -/

/-- Whether a character may stand between the parts of a value. -/
def isSpace (c : Char) : Bool := c == ' ' || c == '\n' || c == '\t' || c == '\r'

/-- `cs` without the blanks in front. -/
def skipSpace (cs : List Char) : List Char := cs.dropWhile isSpace

/-- The digits in front of a text, at least one. -/
def readDigits : TextReader (List Char) := fun cs =>
  match cs.span Text.isDecimalDigit with
  | ([], _) => none
  | (digits, rest) => some (digits, rest)

/-- The digits of a whole number: a zero, or digits that do not begin with one. -/
def readWhole : TextReader (List Char) := fun cs =>
  match readDigits cs with
  | some ('0' :: _ :: _, _) => none
  | result => result

/-- Skip a fraction; the result tells whether there is one. -/
def readFraction : TextReader Bool
  | '.' :: cs => (readDigits cs).map fun (_, rest) => (true, rest)
  | cs => some (false, cs)

/-- Skip an exponent; the result tells whether there is one. -/
def readExponent : TextReader Bool := fun cs =>
  let digitsBehind (cs : List Char) : Option (Bool × List Char) :=
    (readDigits cs).map fun (_, rest) => (true, rest)
  match cs with
  | 'e' :: '+' :: cs | 'e' :: '-' :: cs | 'E' :: '+' :: cs | 'E' :: '-' :: cs
  | 'e' :: cs | 'E' :: cs => digitsBehind cs
  | cs => some (false, cs)

/-- Read a number.  It has a value if it has no sign, fraction or exponent. -/
def readNumber : TextReader Datum := fun cs => do
  let (negative, cs) := match cs with
    | '-' :: cs => (true, cs)
    | cs => (false, cs)
  let (whole, cs) ← readWhole cs
  let (fraction, cs) ← readFraction cs
  let (exponent, cs) ← readExponent cs
  let value? := if negative || fraction || exponent then none else Text.digits? 10 whole
  pure (.number value?, cs)

/-- The literals and their values. -/
def literals : List (String × Datum) :=
  [("null", .null), ("true", .boolean true), ("false", .boolean false)]

/-- Read one of the literals. -/
def readLiteral : TextReader Datum := fun cs =>
  literals.findSome? fun (name, value) =>
    (Text.withoutFront? name.toList cs).map fun rest => (value, rest)

/-! ## Strings -/

/-- A part of a string. -/
inductive Piece where
  | char (c : Char)
  /-- An escaped 16-bit code unit. -/
  | unit (code : Nat)

/-- The character that a letter behind a backslash stands for. -/
def escaped? : Char → Option Char
  | '"' => some '"'
  | '\\' => some '\\'
  | '/' => some '/'
  | 'b' => some '\x08'
  | 'f' => some '\x0c'
  | 'n' => some '\n'
  | 'r' => some '\r'
  | 't' => some '\t'
  | _ => none

/-- Read the pieces of a string up to its closing quote, behind those in `pieces`, which are in reverse
order. -/
def readPieces (pieces : List Piece) : TextReader (List Piece)
  | [] => none
  | '"' :: rest => some (pieces.reverse, rest)
  | '\\' :: 'u' :: a :: b :: c :: d :: rest =>
    match Text.digits? 16 [a, b, c, d] with
    | some code => readPieces (.unit code :: pieces) rest
    | none => none
  | '\\' :: letter :: rest =>
    match escaped? letter with
    | some c => readPieces (.char c :: pieces) rest
    | none => none
  | c :: rest => if c.toNat < 0x20 then none else readPieces (.char c :: pieces) rest

/-- Whether a code unit is the first half of a pair. -/
def isHighHalf (code : Nat) : Bool := 0xd800 ≤ code && code < 0xdc00

/-- Whether a code unit is the second half of a pair. -/
def isLowHalf (code : Nat) : Bool := 0xdc00 ≤ code && code < 0xe000

/-- The characters of a string, where `half?` is a first half that still needs its second. -/
def joinPieces (half? : Option Nat) : List Piece → Option (List Char)
  | [] => if half?.isSome then none else some []
  | .char c :: rest => if half?.isSome then none else (joinPieces none rest).map (c :: ·)
  | .unit code :: rest =>
    match half? with
    | some high =>
      if isLowHalf code then
        let c := Char.ofNat (0x10000 + (high - 0xd800) * 0x400 + (code - 0xdc00))
        (joinPieces none rest).map (c :: ·)
      else none
    | none =>
      if isHighHalf code then joinPieces (some code) rest
      else if isLowHalf code then none
      else (joinPieces none rest).map (Char.ofNat code :: ·)

/-- Read a string behind its opening quote. -/
def readString : TextReader (Option String) := fun cs =>
  (readPieces [] cs).map fun (pieces, rest) => ((joinPieces none pieces).map String.ofList, rest)

/-! ## Values -/

mutual

/-- Read a value. -/
def readValue : Nat → TextReader Datum
  | 0, _ => none
  | fuel + 1, cs =>
    match skipSpace cs with
    | '"' :: rest => (readString rest).map fun (content?, rest) => (.text content?, rest)
    | '[' :: rest =>
      match skipSpace rest with
      | ']' :: rest => some (.list [], rest)
      | _ => (readItems fuel rest).map fun (items, rest) => (.list items, rest)
    | '{' :: rest =>
      match skipSpace rest with
      | '}' :: rest => some (.table [], rest)
      | _ => (readFields fuel rest).map fun (fields, rest) => (.table fields, rest)
    | cs => (readLiteral cs).or (readNumber cs)

/-- Read the items of a list up to its closing bracket. -/
def readItems : Nat → TextReader (List Datum)
  | 0, _ => none
  | fuel + 1, cs => do
    let (item, cs) ← readValue fuel cs
    match skipSpace cs with
    | ',' :: cs => do
      let (items, cs) ← readItems fuel cs
      pure (item :: items, cs)
    | ']' :: cs => pure ([item], cs)
    | _ => none

/-- Read the fields of a table up to its closing brace. -/
def readFields : Nat → TextReader (List (Option String × Datum))
  | 0, _ => none
  | fuel + 1, cs => do
    let (field, cs) ← readField fuel cs
    match skipSpace cs with
    | ',' :: cs => do
      let (fields, cs) ← readFields fuel cs
      pure (field :: fields, cs)
    | '}' :: cs => pure ([field], cs)
    | _ => none

/-- Read a name and its value. -/
def readField : Nat → TextReader (Option String × Datum)
  | 0, _ => none
  | fuel + 1, cs =>
    match skipSpace cs with
    | '"' :: cs => do
      let (name?, cs) ← readString cs
      match skipSpace cs with
      | ':' :: cs => do
        let (value, cs) ← readValue fuel cs
        pure ((name?, value), cs)
      | _ => none
    | _ => none

end

/-- The value of a text.  Reading goes at most three calls deeper for each character. -/
def read? (text : String) : Option Datum :=
  let cs := text.toList
  (readValue (3 * cs.length + 1) cs).bind fun (value, rest) =>
    if (skipSpace rest).isEmpty then some value else none

/-! ## Writing -/

/-- How a character is written in a string. -/
def escape (c : Char) : List Char :=
  match c with
  | '"' => ['\\', '"']
  | '\\' => ['\\', '\\']
  | '\x08' => ['\\', 'b']
  | '\x0c' => ['\\', 'f']
  | '\n' => ['\\', 'n']
  | '\r' => ['\\', 'r']
  | '\t' => ['\\', 't']
  | c => if c.toNat < 0x20 then '\\' :: 'u' :: Text.hexDigits 4 c.toNat else [c]

/-- A text as a string. -/
def quoted (text : String) : String :=
  String.ofList ('"' :: text.toList.flatMap escape ++ ['"'])

/-- `depth` levels of indentation. -/
def indentation (depth : Nat) : String := String.ofList (List.replicate (2 * depth) ' ')

/-- Items between brackets, each on its line, where the brackets are `depth` levels deep. -/
def block (opening closing : String) (depth : Nat) (items : List String) : String :=
  if items.isEmpty then opening ++ closing
  else
    let lines := items.map (indentation (depth + 1) ++ ·)
    opening ++ "\n" ++ String.intercalate ",\n" lines ++ "\n" ++ indentation depth ++ closing

/-- A list of written items. -/
def listText (depth : Nat) (items : List String) : String := block "[" "]" depth items

/-- A table of written values. -/
def tableText (depth : Nat) (fields : List (String × String)) : String :=
  block "\x7b" "\x7d" depth (fields.map fun (name, value) => quoted name ++ ": " ++ value)

end Parley.Json
