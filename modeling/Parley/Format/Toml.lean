import Parley.Format.Datum
import Parley.Text.Blank
import Parley.Text.Number
set_option autoImplicit false

/-!
# TOML

The part of TOML that settings need: keys with strings, integers, truth values, dates and times, and
tables of such values, written inline, with dotted keys or under a header.  Fractions, lists and tables
within tables, which no setting takes, are not read.
-/

namespace Parley.Toml

/-! ## Blanks, comments and line ends -/

/-- Whether a character may stand between the parts of a line. -/
def isSpace (c : Char) : Bool := c == ' ' || c == '\t'

/-- `cs` without the blanks in front. -/
def skipSpace (cs : List Char) : List Char := cs.dropWhile isSpace

/-- Whether a character may stand for itself in comments and strings: a tabulator, or no control
character. -/
def isPlain (c : Char) : Bool :=
  let n := c.toNat
  c == '\t' || (0x20 ≤ n && n ≤ 0x7e) || 0x80 ≤ n

/-- What stands behind a line end. -/
def afterNewline? : List Char → Option (List Char)
  | '\n' :: rest => some rest
  | '\r' :: '\n' :: rest => some rest
  | _ => none

/-- What stands behind the rest of a line that holds at most a comment. -/
def afterLine? (cs : List Char) : Option (List Char) :=
  let behind := match skipSpace cs with
    | '#' :: comment => comment.dropWhile isPlain
    | cs => cs
  if behind.isEmpty then some [] else afterNewline? behind

/-- `cs` without the blanks and line ends in front. -/
def skipSpaceAndNewlines : List Char → List Char
  | [] => []
  | '\r' :: '\n' :: rest => skipSpaceAndNewlines rest
  | c :: rest => if isSpace c || c == '\n' then skipSpaceAndNewlines rest else c :: rest

/-! ## Strings -/

/-- The letters that stand for a character behind a backslash. -/
def escaped? : Char → Option Char
  | '"' => some '"'
  | '\\' => some '\\'
  | 'b' => some '\x08'
  | 'f' => some '\x0c'
  | 'n' => some '\n'
  | 'r' => some '\r'
  | 't' => some '\t'
  | _ => none

/-- Read the character whose number is given by the next `count` hexadecimal digits. -/
def readCodePoint (count : Nat) : TextReader Char := fun cs => do
  let digits := cs.take count
  let code ← Text.digits? 16 digits
  if digits.length = count ∧ code.isValidChar then some (Char.ofNat code, cs.drop count) else none

/-- Read the character that stands behind a backslash. -/
def readEscape : TextReader Char
  | 'u' :: cs => readCodePoint 4 cs
  | 'U' :: cs => readCodePoint 8 cs
  | letter :: cs => (escaped? letter).map fun c => (c, cs)
  | [] => none

/-- How a string is quoted. -/
structure Quotation where
  /-- The quotation mark; between double marks, a backslash escapes. -/
  mark : Char
  /-- Whether three marks stand at either end, between which lines may end. -/
  isLong : Bool

/-- Read the marks that end a string.  A long string ends with three of them; up to two more in front of
these belong to its text and are the result. -/
def readClosing? (q : Quotation) : TextReader (List Char) := fun cs =>
  let run := (cs.takeWhile (· == q.mark)).length
  let needed := if q.isLong then 3 else 1
  if run < needed then none
  else
    let more := if q.isLong then min 2 (run - 3) else 0
    some (List.replicate more q.mark, cs.drop (more + needed))

/-- What stands behind a backslash that joins a line to the next text in a long string. -/
def afterContinuation? (q : Quotation) (cs : List Char) : Option (List Char) :=
  if q.isLong then (afterNewline? (skipSpace cs)).map skipSpaceAndNewlines else none

/-- Read one character of a string, nothing for a joined line end. -/
def readContent (q : Quotation) : TextReader (List Char)
  | [] => none
  | c :: rest =>
    if c == '\\' && q.mark == '"' then
      match afterContinuation? q rest with
      | some rest => some ([], rest)
      | none => (readEscape rest).map fun (c, rest) => ([c], rest)
    else if isPlain c then some ([c], rest)
    else if q.isLong then (afterNewline? (c :: rest)).map fun rest => (['\n'], rest)
    else none

/-- Read a string up to its end, behind the characters in `before`, which are in reverse order. -/
def readQuoted (q : Quotation) (before : List Char) : Nat → TextReader String
  | 0, _ => none
  | fuel + 1, cs =>
    match readClosing? q cs with
    | some (last, rest) => some (String.ofList (before.reverse ++ last), rest)
    | none =>
      match readContent q cs with
      | some (content, rest) => readQuoted q (content ++ before) fuel rest
      | none => none

/-- Read a string behind its opening mark, within one line. -/
def readShort (mark : Char) : TextReader String := fun cs =>
  readQuoted ⟨mark, false⟩ [] (cs.length + 1) cs

/-- Read a string behind its opening mark or marks.  A line end directly behind three opening marks does
not belong to the text. -/
def readString (mark : Char) : TextReader String := fun cs =>
  match Text.withoutFront? [mark, mark] cs with
  | some rest =>
    let body := (afterNewline? rest).getD rest
    readQuoted ⟨mark, true⟩ [] (body.length + 1) body
  | none => readShort mark cs

/-! ## Integers -/

/-- The largest positive integer. -/
def integerLimit : Nat := UInt64.size / 2 - 1

/-- Read digits, between which single underscores may stand. -/
def readDigits (base : Nat) : TextReader (List Char) := fun cs =>
  let (run, rest) := cs.span fun c => c == '_' || (Text.digit? base c).isSome
  let groups := run.splitOn '_'
  if groups.any List.isEmpty then none else some (groups.flatten, rest)

/-- Read a decimal integer without sign: a zero, or digits that do not begin with one. -/
def readDecimal : TextReader Nat := fun cs =>
  match readDigits 10 cs with
  | none | some ('0' :: _ :: _, _) => none
  | some (digits, rest) => (Text.digits? 10 digits).map fun n => (n, rest)

/-- Read an integer in another base. -/
def readBased (base : Nat) : TextReader Nat := fun cs => do
  let (digits, rest) ← readDigits base cs
  let n ← Text.digits? base digits
  pure (n, rest)

/-- An integer and what stands behind it, if the integer is at most `limit`. -/
def upTo (limit : Nat) (read : Option (Nat × List Char)) : Option (Nat × List Char) :=
  read.filter fun (n, _) => n ≤ limit

/-- Read an integer of 64 bits.  It has a value unless it is negative. -/
def readInteger : TextReader Datum := fun cs =>
  let natural := fun (read : Option (Nat × List Char)) =>
    (upTo integerLimit read).map fun (n, rest) => (Datum.number (some n), rest)
  match cs with
  | '0' :: 'x' :: cs => natural (readBased 16 cs)
  | '0' :: 'o' :: cs => natural (readBased 8 cs)
  | '0' :: 'b' :: cs => natural (readBased 2 cs)
  | '-' :: cs =>
    (upTo (integerLimit + 1) (readDecimal cs)).map fun (n, rest) =>
      (.number (if n = 0 then some 0 else none), rest)
  | '+' :: cs => natural (readDecimal cs)
  | cs => natural (readDecimal cs)

/-! ## Dates and times -/

/-- Read exactly `count` digits whose value lies between `least` and `most`. -/
def readPart (count least most : Nat) : TextReader Nat := fun cs => do
  let digits := cs.take count
  let n ← Text.digits? 10 digits
  if digits.length = count ∧ least ≤ n ∧ n ≤ most then some (n, cs.drop count) else none

/-- Whether a year has a 29th of February. -/
def isLeapYear (year : Nat) : Bool := year % 4 = 0 && (year % 100 ≠ 0 || year % 400 = 0)

/-- The number of days of a month. -/
def daysOfMonth (year month : Nat) : Nat :=
  if month = 2 then (if isLeapYear year then 29 else 28)
  else if month = 4 ∨ month = 6 ∨ month = 9 ∨ month = 11 then 30
  else 31

/-- What stands behind a date. -/
def afterDate? (cs : List Char) : Option (List Char) := do
  let (year, cs) ← readPart 4 0 9999 cs
  let (month, cs) ← readPart 2 1 12 (← Text.withoutFront? ['-'] cs)
  let (_, cs) ← readPart 2 1 (daysOfMonth year month) (← Text.withoutFront? ['-'] cs)
  pure cs

/-- What stands behind the hours and minutes of a time. -/
def afterMinutes? (cs : List Char) : Option (List Char) := do
  let (_, cs) ← readPart 2 0 23 cs
  let (_, cs) ← readPart 2 0 59 (← Text.withoutFront? [':'] cs)
  pure cs

/-- What stands behind a time; its seconds may be leap seconds and have a fraction. -/
def afterTime? (cs : List Char) : Option (List Char) := do
  let cs ← afterMinutes? cs
  let (_, cs) ← readPart 2 0 60 (← Text.withoutFront? [':'] cs)
  match cs with
  | '.' :: fraction =>
    let rest := fraction.dropWhile Text.isDecimalDigit
    if rest.length < fraction.length then some rest else none
  | cs => some cs

/-- What stands behind the distance of a time from the time of Greenwich. -/
def afterOffset? : List Char → Option (List Char)
  | 'Z' :: rest | 'z' :: rest => some rest
  | '+' :: cs | '-' :: cs => afterMinutes? cs
  | _ => none

/-- What stands behind the time that may follow a date. -/
def afterTimeOfDay? : List Char → Option (List Char)
  | 'T' :: cs | 't' :: cs | ' ' :: cs =>
    (afterTime? cs).map fun rest => (afterOffset? rest).getD rest
  | _ => none

/-- What stands behind a date, a time, or a date with a time. -/
def afterMoment? (cs : List Char) : Option (List Char) :=
  match afterDate? cs with
  | some rest => some ((afterTimeOfDay? rest).getD rest)
  | none => afterTime? cs

/-- The name of the only field that a date or time has for those who take it for a table. -/
def momentField : String := "$__toml_private_datetime"

/-- Read a date, a time, or a date with a time.  It counts as a table that holds it as a text. -/
def readMoment : TextReader Datum := fun cs =>
  (afterMoment? cs).map fun rest =>
    let written := String.ofList (cs.take (cs.length - rest.length))
    (.table [(some momentField, .text (some written))], rest)

/-! ## Keys and values -/

/-- Whether a character may stand in a key without quotes. -/
def isBare (c : Char) : Bool := Text.isAsciiAlphanumeric c || c == '_' || c == '-'

/-- Read a key without dots. -/
def readKey : TextReader String
  | '"' :: cs => readShort '"' cs
  | '\'' :: cs => readShort '\'' cs
  | cs =>
    let (name, rest) := cs.span isBare
    if name.isEmpty then none else some (String.ofList name, rest)

/-- The truth values. -/
def literals : List (String × Datum) := [("true", .boolean true), ("false", .boolean false)]

/-- Read a value that is written without braces. -/
def readScalar : TextReader Datum
  | '"' :: cs => (readString '"' cs).map fun (text, rest) => (.text (some text), rest)
  | '\'' :: cs => (readString '\'' cs).map fun (text, rest) => (.text (some text), rest)
  | cs =>
    let literal? := literals.findSome? fun (name, value) =>
      (Text.withoutFront? name.toList cs).map fun rest => (value, rest)
    literal?.or ((readMoment cs).or (readInteger cs))

/-- What stands behind the equals sign between a key and its value. -/
def afterEquals? (cs : List Char) : Option (List Char) :=
  (Text.withoutFront? ['='] (skipSpace cs)).map skipSpace

/-- Read the fields of an inline table up to its closing brace. -/
def readFields : Nat → TextReader (List (String × Datum))
  | 0, _ => none
  | fuel + 1, cs => do
    let (key, cs) ← readKey (skipSpace cs)
    let (value, cs) ← readScalar (← afterEquals? cs)
    match skipSpace cs with
    | ',' :: cs => do
      let (fields, cs) ← readFields fuel cs
      pure ((key, value) :: fields, cs)
    | '}' :: cs => pure ([(key, value)], cs)
    | _ => none

/-- The table of some fields, if their keys differ. -/
def distinct? (fields : List (String × Datum)) : Option (SortedMap String Datum) :=
  if (fields.map (·.1)).Nodup then some (.ofList fields) else none

/-- A table as a value. -/
def tableOf (fields : SortedMap String Datum) : Datum :=
  .table (fields.entries.map fun (name, value) => (some name, value))

/-- Read an inline table behind its opening brace. -/
def readInline : TextReader Datum := fun cs =>
  match skipSpace cs with
  | '}' :: rest => some (tableOf .empty, rest)
  | cs => do
    let (fields, rest) ← readFields cs.length cs
    let table ← distinct? fields
    pure (tableOf table, rest)

/-- Read a value. -/
def readValue : TextReader Datum
  | '{' :: cs => readInline cs
  | cs => readScalar cs

/-! ## Lines -/

/-- What a line says. -/
inductive Line where
  /-- Nothing. -/
  | blank
  /-- The following values belong to the table with this name. -/
  | header (name : String)
  /-- A key, possibly of a table that is named before a dot, has a value. -/
  | entry (key : String) (inner? : Option String) (value : Datum)

/-- Read the key behind a dot, if there is one. -/
def readInnerKey : TextReader (Option String) := fun cs =>
  match skipSpace cs with
  | '.' :: cs => (readKey (skipSpace cs)).map fun (key, rest) => (some key, rest)
  | cs => some (none, cs)

/-- Read what a line says, up to a comment or its end. -/
def readStatement : TextReader Line
  | '[' :: cs => do
    let (name, cs) ← readKey (skipSpace cs)
    let cs ← Text.withoutFront? [']'] (skipSpace cs)
    pure (.header name, cs)
  | cs => do
    let (key, cs) ← readKey cs
    let (inner?, cs) ← readInnerKey cs
    let (value, cs) ← readValue (← afterEquals? cs)
    pure (.entry key inner? value, cs)

/-- Read a line with its line end. -/
def readLine : TextReader Line := fun cs =>
  match afterLine? cs with
  | some rest => some (.blank, rest)
  | none => do
    let (line, cs) ← readStatement (skipSpace cs)
    let rest ← afterLine? cs
    pure (line, rest)

/-- Read all lines, behind those in `lines`, which are in reverse order. -/
def readLines (lines : List Line) : Nat → List Char → Option (List Line)
  | 0, _ => none
  | fuel + 1, cs =>
    if cs.isEmpty then some lines.reverse
    else
      match readLine cs with
      | some (line, rest) => readLines (line :: lines) fuel rest
      | none => none

/-! ## Documents -/

/-- How a name is defined so far. -/
inductive Definition where
  /-- By one value, to which nothing can be added. -/
  | value (d : Datum)
  /-- As a table by dotted keys, which can be more. -/
  | dotted (fields : SortedMap String Datum)
  /-- As a table under a header, which gets the values below it. -/
  | headed (fields : SortedMap String Datum)

/-- A document up to some line. -/
structure Document where
  definitions : SortedMap String Definition
  /-- The table whose header stands above. -/
  header? : Option String

namespace Document

/-- The document without lines. -/
def empty : Document := ⟨.empty, none⟩

/-- Define a name anew. -/
def define? (doc : Document) (name : String) (d : Definition) : Option Document :=
  if doc.definitions.contains name then none
  else some { doc with definitions := doc.definitions.insert name d }

/-- The fields with one more, under a key that is new. -/
def field? (fields : SortedMap String Datum) (key : String) (value : Datum) :
    Option (SortedMap String Datum) :=
  if fields.contains key then none else some (fields.insert key value)

/-- The document with one more value, which no header stands above. -/
def addTop? (doc : Document) (key : String) (inner? : Option String) (value : Datum) :
    Option Document :=
  match inner? with
  | none => doc.define? key (.value value)
  | some inner =>
    match doc.definitions.get? key with
    | none => doc.define? key (.dotted (SortedMap.empty.insert inner value))
    | some (.dotted fields) => do
      let fields ← field? fields inner value
      pure { doc with definitions := doc.definitions.insert key (.dotted fields) }
    | some _ => none

/-- The document with one more value in the table `name`, whose header stands above. -/
def addBelow? (doc : Document) (name key : String) (value : Datum) : Option Document :=
  match doc.definitions.get? name with
  | some (.headed fields) => do
    let fields ← field? fields key value
    pure { doc with definitions := doc.definitions.insert name (.headed fields) }
  | _ => none

/-- The document with one more line. -/
def add? (doc : Document) : Line → Option Document
  | .blank => some doc
  | .header name => (doc.define? name (.headed .empty)).map ({ · with header? := some name })
  | .entry key inner? value =>
    match doc.header?, inner? with
    | none, inner? => doc.addTop? key inner? value
    | some name, none => doc.addBelow? name key value
    | some _, some _ => none

/-- The value that a definition gives. -/
def definedValue : Definition → Datum
  | .value d => d
  | .dotted fields | .headed fields => tableOf fields

/-- The document as a table. -/
def table (doc : Document) : Datum :=
  .table (doc.definitions.entries.map fun (name, d) => (some name, definedValue d))

end Document

/-- The table that a text holds.  A byte order mark may stand in front. -/
def read? (text : String) : Option Datum := do
  let cs := match text.toList with
    | '\ufeff' :: cs => cs
    | cs => cs
  let lines ← readLines [] (cs.length + 1) cs
  let doc ← lines.foldlM Document.add? Document.empty
  pure doc.table

end Parley.Toml
