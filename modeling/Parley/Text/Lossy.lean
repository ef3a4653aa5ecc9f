set_option autoImplicit false

/-!
# Text from arbitrary bytes

UTF-8 text in which damage is allowed: every longest run of bytes that begins a character but cannot
be completed, and every byte that begins none, is read as one replacement character.
-/

namespace Parley.Text

/-- The character that stands for undecodable bytes. -/
def replacement : Char := '\ufffd'

/-- Whether a byte continues a character. -/
def isContinuation (b : UInt8) : Bool := 0x80 ≤ b && b ≤ 0xbf

/-- Whether `second` may follow the first byte `first` of a character of three bytes. -/
def startsThree (first second : UInt8) : Bool :=
  (first == 0xe0 && 0xa0 ≤ second && second ≤ 0xbf) ||
  (0xe1 ≤ first && first ≤ 0xec && isContinuation second) ||
  (first == 0xed && 0x80 ≤ second && second ≤ 0x9f) ||
  (0xee ≤ first && first ≤ 0xef && isContinuation second)

/-- Whether `second` may follow the first byte `first` of a character of four bytes. -/
def startsFour (first second : UInt8) : Bool :=
  (first == 0xf0 && 0x90 ≤ second && second ≤ 0xbf) ||
  (0xf1 ≤ first && first ≤ 0xf3 && isContinuation second) ||
  (first == 0xf4 && 0x80 ≤ second && second ≤ 0x8f)

/-- The six payload bits of a continuation byte. -/
def payload (b : UInt8) : Nat := b.toNat % 64

/-- The text of `bytes`, with a replacement character for each undecodable run. -/
def decodeLossy : List UInt8 → List Char
  | [] => []
  | [a] => [if a < 0x80 then Char.ofNat a.toNat else replacement]
  | a :: b :: rest =>
    if a < 0x80 then Char.ofNat a.toNat :: decodeLossy (b :: rest)
    else if 0xc2 ≤ a && a ≤ 0xdf && isContinuation b then
      Char.ofNat ((a.toNat - 0xc0) * 64 + payload b) :: decodeLossy rest
    else if startsThree a b then
      match rest with
      | [] => [replacement]
      | c :: rest =>
        if isContinuation c then
          Char.ofNat ((a.toNat - 0xe0) * 4096 + payload b * 64 + payload c) :: decodeLossy rest
        else replacement :: decodeLossy (c :: rest)
    else if startsFour a b then
      match rest with
      | [] => [replacement]
      | [c] =>
        if isContinuation c then [replacement] else replacement :: decodeLossy [c]
      | c :: d :: rest =>
        if !isContinuation c then replacement :: decodeLossy (c :: d :: rest)
        else if !isContinuation d then replacement :: decodeLossy (d :: rest)
        else
          Char.ofNat ((a.toNat - 0xf0) * 262144 + payload b * 4096 + payload c * 64 + payload d) ::
            decodeLossy rest
    else replacement :: decodeLossy (b :: rest)

/-- The text of `bytes` if they are well-formed UTF-8 throughout. -/
def decodeStrict? (bytes : List UInt8) : Option String :=
  String.fromUTF8? (ByteArray.mk bytes.toArray)

/-- The bytes of a text in UTF-8. -/
def encode (text : String) : List UInt8 :=
  text.toUTF8.data.toList

end Parley.Text
