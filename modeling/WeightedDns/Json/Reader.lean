import WeightedDns.Json.Basic
import WeightedDns.Text.Scan

/-!
# Reading JSON

`Json.parse?` reads one value with white space around it and nothing else. The readers take the
characters still to be read and give back what is left of them; the recursion is bounded by a
count of steps that the length of the text always covers.
-/

namespace WeightedDns.Json

open Decimal Text

/-- A character between the tokens. -/
def isSpace (c : Char) : Bool := c == ' ' || c == '\n' || c == '\t' || c == '\r'

/-- The characters from the next token on. -/
def skipSpace (cs : List Char) : List Char := cs.dropWhile isSpace

/-! ## Texts -/

/-- The first half of a surrogate pair. -/
def isHighSurrogate (n : Nat) : Bool := 0xD800 ≤ n && n ≤ 0xDBFF

/-- The second half of a surrogate pair. -/
def isLowSurrogate (n : Nat) : Bool := 0xDC00 ≤ n && n ≤ 0xDFFF

/-- The character that a surrogate pair stands for. -/
def joinSurrogates (high low : Nat) : Char :=
  Char.ofNat (0x10000 + (high - 0xD800) * 0x400 + (low - 0xDC00))

/-- The character of an escape of one letter. -/
def shortEscape? : Char → Option Char
  | '"' => some '"'
  | '\\' => some '\\'
  | '/' => some '/'
  | 'b' => some '\x08'
  | 'f' => some '\x0c'
  | 'n' => some '\n'
  | 'r' => some '\r'
  | 't' => some '\t'
  | _ => none

/-- What an escape with a code unit stands for, none for half of a surrogate pair, and the
characters behind it. -/
def unitEscape? (cs : List Char) : Option (Option Char × List Char) := do
  let (n, rest) ← hexDigits? 4 0 cs
  if isLowSurrogate n then some (none, rest)
  else if isHighSurrogate n then
    match expect? ['\\', 'u'] rest with
    | none => some (none, rest)
    | some rest' =>
      let (m, rest'') ← hexDigits? 4 0 rest'
      if isLowSurrogate m then some (some (joinSurrogates n m), rest'') else some (none, rest)
  else some (some (Char.ofNat n), rest)

/-- The rest of a text after its opening quote: the characters in `done` reversed and those up to
the closing quote; none of them if half of a surrogate pair was among them. -/
def closeText? (steps : Nat) (done : Option (List Char)) :
    List Char → Option (Option String × List Char)
  | [] => none
  | '"' :: cs => some (done.map fun d => String.ofList d.reverse, cs)
  | '\\' :: 'u' :: cs =>
    match steps with
    | 0 => none
    | steps + 1 => do
      let (c, rest) ← unitEscape? cs
      closeText? steps (do some ((← c) :: (← done))) rest
  | '\\' :: e :: cs =>
    match steps with
    | 0 => none
    | steps + 1 => do
      let c ← shortEscape? e
      closeText? steps (done.map (c :: ·)) cs
  | c :: cs =>
    match steps with
    | 0 => none
    | steps + 1 =>
      if c == '\\' || c.toNat < 0x20 then none else closeText? steps (done.map (c :: ·)) cs

/-! ## Numbers -/

/-- The parts of a number as it is written. -/
structure Literal where
  negative : Bool
  /-- The digits before the point. -/
  integer : List Nat
  /-- The digits behind the point, if there is one. -/
  fraction : Option (List Nat)
  /-- The sign and digits of the exponent, if there is one; true for minus. -/
  exponent : Option (Bool × List Nat)
  deriving Repr

/-- Append digits to a number below `2 ^ 64` while it stays there; the digits left over. -/
def absorb (n : Nat) : List Nat → Nat × List Nat
  | [] => (n, [])
  | d :: ds => if n * 10 + d < UInt64.size then absorb (n * 10 + d) ds else (n, d :: ds)

/-- The greatest exponent that is told apart from infinity. -/
def exponentLimit : Nat := 0x7fffffff

namespace Literal

/-- The float that a literal stands for. Digits that do not fit into 64 bits are dropped: before
the point they still count as places, behind it they are ignored. None if the number is beyond the
greatest finite one. -/
def float? (l : Literal) : Option Binary64 := do
  let (significand, dropped) := absorb 0 l.integer
  let fraction := l.fraction.getD []
  let (significand, ignored) := absorb significand fraction
  let places : Int := (dropped.length : Int) - (fraction.length - ignored.length : Nat)
  let magnitude ←
    match l.exponent with
    | none => Binary64.ofDigits significand places
    | some (negative, ds) =>
      let e := digitsValue ds
      if exponentLimit < e then
        if significand != 0 && !negative then none else some (Binary64.zero false)
      else Binary64.ofDigits significand (if negative then places - e else places + e)
  some (if l.negative then magnitude.neg else magnitude)

/-- The number that a literal stands for: whole if it is written without point and exponent, is
not `-0` and fits into 64 bits. -/
def number? (l : Literal) : Option Number :=
  let n := digitsValue l.integer
  let value : Int := if l.negative then -n else n
  if l.fraction.isNone && l.exponent.isNone && !(l.negative && n == 0) && leastWhole ≤ value &&
      value ≤ greatestWhole then
    some (.whole value)
  else l.float?.map .float

end Literal

/-- The digits behind a point, if one follows. -/
def fractionPart? : List Char → Option (Option (List Nat) × List Char)
  | '.' :: cs =>
    match digitRun cs with
    | ([], _) => none
    | (ds, rest) => some (some ds, rest)
  | cs => some (none, cs)

/-- The exponent, if one follows. -/
def exponentPart? : List Char → Option (Option (Bool × List Nat) × List Char)
  | c :: cs =>
    if c == 'e' || c == 'E' then
      let (negative, digits) :=
        match cs with
        | '-' :: rest => (true, rest)
        | '+' :: rest => (false, rest)
        | rest => (false, rest)
      match digitRun digits with
      | ([], _) => none
      | (ds, rest) => some (some (negative, ds), rest)
    else some (none, c :: cs)
  | [] => some (none, [])

/-- A number; no digit may follow a leading zero. -/
def literal? (cs : List Char) : Option (Literal × List Char) := do
  let (negative, cs) :=
    match cs with
    | '-' :: rest => (true, rest)
    | rest => (false, rest)
  let (integer, cs) := digitRun cs
  if integer.isEmpty || (integer.length != 1 && integer.head? == some 0) then none
  else
    let (fraction, cs) ← fractionPart? cs
    let (exponent, cs) ← exponentPart? cs
    some (⟨negative, integer, fraction, exponent⟩, cs)

/-! ## Values -/

/-- A text as a value. -/
def ofText? : Option String → Json
  | some s => .text s
  | none => .unreadable

/-- An object as a value; a key that cannot be read spoils it. -/
def ofMembers (members : List (Option String × Json)) : Json :=
  match members.mapM fun m => m.1.map (·, m.2) with
  | some ms => .object ms
  | none => .unreadable

mutual

/-- A value at the start of the characters, and the characters behind it. -/
def readValue? (steps : Nat) (cs : List Char) : Option (Json × List Char) :=
  match steps with
  | 0 => none
  | steps + 1 =>
    match cs with
    | [] => none
    | 'n' :: _ => (expect? ['n', 'u', 'l', 'l'] cs).map (.null, ·)
    | 't' :: _ => (expect? ['t', 'r', 'u', 'e'] cs).map (.bool true, ·)
    | 'f' :: _ => (expect? ['f', 'a', 'l', 's', 'e'] cs).map (.bool false, ·)
    | '"' :: rest => do
      let (s, rest) ← closeText? steps (some []) rest
      some (ofText? s, rest)
    | '[' :: rest =>
      match skipSpace rest with
      | ']' :: rest => some (.array [], rest)
      | rest => do
        let (items, rest) ← readItems? steps rest []
        some (.array items, rest)
    | '\x7b' :: rest =>
      match skipSpace rest with
      | '\x7d' :: rest => some (.object [], rest)
      | rest => do
        let (members, rest) ← readMembers? steps rest []
        some (ofMembers members, rest)
    | cs => do
      let (l, rest) ← literal? cs
      some ((l.number?.map .number).getD .unreadable, rest)

/-- The items up to the closing bracket, after those in `done` reversed. -/
def readItems? (steps : Nat) (cs : List Char) (done : List Json) :
    Option (List Json × List Char) :=
  match steps with
  | 0 => none
  | steps + 1 => do
    let (j, rest) ← readValue? steps cs
    match skipSpace rest with
    | ',' :: rest => readItems? steps (skipSpace rest) (j :: done)
    | ']' :: rest => some ((j :: done).reverse, rest)
    | _ => none

/-- The members up to the closing brace, after those in `done` reversed. -/
def readMembers? (steps : Nat) (cs : List Char) (done : List (Option String × Json)) :
    Option (List (Option String × Json) × List Char) :=
  match steps with
  | 0 => none
  | steps + 1 =>
    match cs with
    | '"' :: rest => do
      let (key, rest) ← closeText? steps (some []) rest
      match skipSpace rest with
      | ':' :: rest =>
        let (j, rest) ← readValue? steps (skipSpace rest)
        match skipSpace rest with
        | ',' :: rest => readMembers? steps (skipSpace rest) ((key, j) :: done)
        | '\x7d' :: rest => some (((key, j) :: done).reverse, rest)
        | _ => none
      | _ => none
    | _ => none

end

/-- The value that a text holds, none if the text is not well formed. -/
def parse? (s : String) : Option Json := do
  let cs := skipSpace s.toList
  let (j, rest) ← readValue? (2 * cs.length + 2) cs
  if (skipSpace rest).isEmpty then some j else none

end WeightedDns.Json
