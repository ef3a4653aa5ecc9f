set_option autoImplicit false

/-!
# Numbers as text

Hexadecimal and decimal numerals, written and read.  Written hexadecimal numerals are lower-case
and padded with zeros to a least width.  Read numerals carry an optional sign and at least one digit;
a numeral whose value lies outside the wanted range is no numeral of that range.
-/

namespace Parley.Text

/-! ## Writing -/

/-- The hexadecimal digits of `n`, most significant first, at least `width` of them. -/
def hexDigits (width n : Nat) : List Char :=
  let digits := Nat.toDigits 16 n
  List.replicate (width - digits.length) '0' ++ digits

/-- The hexadecimal numeral of `n` with at least `width` digits. -/
def hex (width n : Nat) : String :=
  String.ofList (hexDigits width n)

/-- A word as four hexadecimal digits. -/
def hexWord (word : UInt16) : String :=
  hex 4 word.toNat

/-- A word as four hexadecimal digits behind `0x`. -/
def hexWordMarked (word : UInt16) : String :=
  "0x" ++ hexWord word

/-- A word as a decimal numeral. -/
def decimal (word : UInt16) : String :=
  toString word.toNat

/-! ## Reading -/

/-- The value of a letter or digit in base `base`, with letters of either case above nine. -/
def digit? (base : Nat) (c : Char) : Option Nat :=
  let n := c.toNat
  let value? :=
    if 48 ≤ n ∧ n ≤ 57 then some (n - 48)
    else if 97 ≤ n ∧ n ≤ 122 then some (n - 87)
    else if 65 ≤ n ∧ n ≤ 90 then some (n - 55)
    else none
  value?.filter (· < base)

/-- Whether a character is one of the ten decimal digits. -/
def isDecimalDigit (c : Char) : Bool :=
  (digit? 10 c).isSome

/-- Whether a character is a letter of the English alphabet or a decimal digit. -/
def isAsciiAlphanumeric (c : Char) : Bool :=
  (digit? 36 c).isSome

/-- The value of `cs` after the digits whose value so far is `value`. -/
def digitsFrom? (base : Nat) (value : Nat) : List Char → Option Nat
  | [] => some value
  | c :: cs => (digit? base c).bind fun d => digitsFrom? base (value * base + d) cs

/-- The value of a nonempty sequence of digits. -/
def digits? (base : Nat) : List Char → Option Nat
  | [] => none
  | cs => digitsFrom? base 0 cs

/-- A number of at most `limit`: digits, with an optional plus sign before them. -/
def natural? (base limit : Nat) (cs : List Char) : Option Nat :=
  let digits := match cs with
    | '+' :: rest => rest
    | _ => cs
  (digits? base digits).filter (· ≤ limit)

/-- A 16-bit word: a number of at most 65535. -/
def word? (base : Nat) (cs : List Char) : Option UInt16 :=
  (natural? base 65535 cs).map UInt16.ofNat

/-- A decimal integer of 32 bits: digits, with an optional sign before them. -/
def integer32? (cs : List Char) : Option Int :=
  match cs with
  | '-' :: rest => ((digits? 10 rest).filter (· ≤ UInt32.size / 2)).map fun n => -(n : Int)
  | _ => (natural? 10 (UInt32.size / 2 - 1) cs).map fun n => (n : Int)

end Parley.Text
