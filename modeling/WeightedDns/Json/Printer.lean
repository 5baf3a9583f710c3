import WeightedDns.Decimal.Shortest
import WeightedDns.Json.Basic

/-!
# Printing JSON

`compact` writes no space at all; `pretty` indents by two spaces, one member or item a line, as
the command line prints. Both keep the order of members. A float has its shortest digits, with a
point up to sixteen places before it and five zeros behind it, and an exponent beyond.
-/

namespace WeightedDns.Json

open Decimal

/-- The lower-case hexadecimal digit of a number below sixteen. -/
def lowerHexDigit (n : Nat) : Char :=
  if n < 10 then Char.ofNat ('0'.toNat + n) else Char.ofNat ('a'.toNat + (n - 10))

/-- The written form of a character inside quotes. -/
def escapeChar (c : Char) : List Char :=
  match c with
  | '"' => ['\\', '"']
  | '\\' => ['\\', '\\']
  | '\n' => ['\\', 'n']
  | '\r' => ['\\', 'r']
  | '\t' => ['\\', 't']
  | '\x08' => ['\\', 'b']
  | '\x0c' => ['\\', 'f']
  | c =>
    if c.toNat < 0x20 then
      ['\\', 'u', '0', '0', lowerHexDigit (c.toNat / 16), lowerHexDigit (c.toNat % 16)]
    else [c]

/-- A text in quotes. -/
def quoted (s : String) : String :=
  String.ofList ('"' :: s.toList.flatMap escapeChar ++ ['"'])

/-- As many zeros as asked for. -/
def zeros (n : Nat) : String := String.ofList (List.replicate n '0')

/-- The text of a positive decimal: with a point while it stands at most sixteen places behind
the first digit or five zeros before it, otherwise with a signed exponent. -/
def decimalText (d : Digits) : String :=
  let digits := toString d.digits
  let count : Int := digits.length
  let point := count + d.exponent
  if 0 ≤ d.exponent ∧ point ≤ 16 then digits ++ zeros d.exponent.toNat ++ ".0"
  else if 0 < point ∧ point ≤ 16 then
    String.ofList (digits.toList.take point.toNat) ++ "." ++
      String.ofList (digits.toList.drop point.toNat)
  else if -5 < point ∧ point ≤ 0 then "0." ++ zeros (-point).toNat ++ digits
  else
    let fraction := digits.toList.drop 1
    let mantissa := String.ofList (digits.toList.take 1) ++
      (if fraction.isEmpty then "" else "." ++ String.ofList fraction)
    let power := point - 1
    if power < 0 then s!"{mantissa}e-{power.natAbs}" else s!"{mantissa}e+{power.natAbs}"

/-- The text of a float. -/
def floatText (x : Binary64) : String :=
  let magnitude := if x.isZero then "0.0" else decimalText (shortest x)
  if x.negative then "-" ++ magnitude else magnitude

/-- The text of a number. -/
def numberText : Number → String
  | .whole n => toString n
  | .float x => floatText x

mutual

/-- The text of a value without spaces. -/
def compact : Json → String
  | .null => "null"
  | .unreadable => "null"
  | .bool b => if b then "true" else "false"
  | .number n => numberText n
  | .text s => quoted s
  | .array items => "[" ++ String.intercalate "," (compactItems items) ++ "]"
  | .object members => "\x7b" ++ String.intercalate "," (compactMembers members) ++ "\x7d"

/-- The texts of the items. -/
def compactItems : List Json → List String
  | [] => []
  | j :: rest => compact j :: compactItems rest

/-- The texts of the members. -/
def compactMembers : List (String × Json) → List String
  | [] => []
  | (k, j) :: rest => (quoted k ++ ":" ++ compact j) :: compactMembers rest

end

/-- Two spaces for each level. -/
def indent (level : Nat) : String := String.ofList (List.replicate (2 * level) ' ')

/-- Parts between brackets, one a line, or the bare brackets where there is none. -/
def block (opening closing : String) (level : Nat) (parts : List String) : String :=
  if parts.isEmpty then opening ++ closing
  else
    let lines := parts.map (indent (level + 1) ++ ·)
    opening ++ "\n" ++ String.intercalate ",\n" lines ++ "\n" ++ indent level ++ closing

mutual

/-- The text of a value whose first line stands at some level. -/
def prettyAt (level : Nat) : Json → String
  | .array items => block "[" "]" level (prettyItems level items)
  | .object members => block "\x7b" "\x7d" level (prettyMembers level members)
  | j => compact j

/-- The texts of the items, one level deeper. -/
def prettyItems (level : Nat) : List Json → List String
  | [] => []
  | j :: rest => prettyAt (level + 1) j :: prettyItems level rest

/-- The texts of the members, one level deeper. -/
def prettyMembers (level : Nat) : List (String × Json) → List String
  | [] => []
  | (k, j) :: rest => (quoted k ++ ": " ++ prettyAt (level + 1) j) :: prettyMembers level rest

end

/-- The indented text of a value. -/
def pretty (j : Json) : String := prettyAt 0 j

end WeightedDns.Json
