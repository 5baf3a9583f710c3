/-!
# Percent encoding

Letters, digits and `-`, `_`, `.`, `~` stand for themselves; every other character is written as
the bytes of its UTF-8 form, each as a percent sign and two upper-case hexadecimal digits.
Decoding reads exactly such text, so that the pair can be stated as inverse.
-/

namespace WeightedDns.Text.Percent

/-- Whether a character is written as itself. -/
def isUnreserved (c : Char) : Bool :=
  c.isAlphanum || c == '-' || c == '_' || c == '.' || c == '~'

/-- The upper-case hexadecimal digit of a number below sixteen. -/
def hexDigit (n : Nat) : Char :=
  if n < 10 then Char.ofNat ('0'.toNat + n) else Char.ofNat ('A'.toNat + (n - 10))

/-- The number that an upper-case hexadecimal digit stands for. -/
def hexValue? (c : Char) : Option Nat :=
  if '0' ≤ c ∧ c ≤ '9' then some (c.toNat - '0'.toNat)
  else if 'A' ≤ c ∧ c ≤ 'F' then some (c.toNat - 'A'.toNat + 10)
  else none

/-- A byte as a percent sign and two digits. -/
def encodeByte (b : UInt8) : List Char :=
  ['%', hexDigit (b.toNat / 16), hexDigit (b.toNat % 16)]

/-- The written form of one character. -/
def encodeChar (c : Char) : List Char :=
  if isUnreserved c then [c] else (String.utf8EncodeChar c).flatMap encodeByte

/-- The written form of a text. -/
def encode (s : String) : String :=
  String.ofList (s.toList.flatMap encodeChar)

/-- The bytes that an encoded text stands for; refuses a character that encoding never writes. -/
def decodeBytes? : List Char → Option (List UInt8)
  | [] => some []
  | '%' :: hi :: lo :: cs => do
    let h ← hexValue? hi
    let l ← hexValue? lo
    let rest ← decodeBytes? cs
    some (UInt8.ofNat (16 * h + l) :: rest)
  | c :: cs =>
    if isUnreserved c then (decodeBytes? cs).map (UInt8.ofNat c.toNat :: ·) else none

/-- The text that an encoded text stands for. -/
def decode? (s : String) : Option String := do
  let bytes ← decodeBytes? s.toList
  String.fromUTF8? ⟨bytes.toArray⟩

end WeightedDns.Text.Percent
