import WeightedDns.Toml.Table
import WeightedDns.Text.Scan

/-!
# TOML numbers

Whole numbers and numbers with a fraction or an exponent. Underscores may part the digits. A whole
number is checked as far as it takes to tell it from the other scalars: one beyond 64 bits, one
without digits behind the letter of its base, and one with other characters than digits behind its
first underscore are scalars of another kind, which may be passed over.
-/

namespace WeightedDns.Toml

open Text

/-- The number that a digit of a base stands for. -/
def digit? (base : Nat) (c : Char) : Option Nat := (hexValue? c).filter (· < base)

/-- A digit of a base. -/
def isDigitOf (base : Nat) (c : Char) : Bool := (digit? base c).isSome

/-- The number that digits of a base stand for. Underscores do not count; there is a digit. -/
def digitsIn? (base : Nat) (cs : List Char) : Option Nat := do
  let ds ← (cs.filter (· != '_')).mapM (digit? base)
  if ds.isEmpty then none else some (ds.foldl (fun n d => base * n + d) 0)

/-- Whether a digit stands on both sides of each underscore. The first may have no digit before
it if `ahead` holds. -/
def isParted (isDigit : Char → Bool) (ahead : Bool) : List Char → Bool
  | [] => true
  | '_' :: cs => ahead && cs.head?.any isDigit && isParted isDigit false cs
  | c :: cs => isParted isDigit (isDigit c) cs

/-- A whole number as a value, of another kind if it takes more than 64 bits. -/
def wholeOf (n : Int) : Value :=
  if Int64.minValue.toInt ≤ n ∧ n ≤ Int64.maxValue.toInt then .whole n else .other

/-- A whole number in a base that is a power of two, after the letter that names the base. -/
def based? (base : Nat) (cs : List Char) : Option Value :=
  if cs.all (fun c => isDigitOf base c || c == '_') && isParted (isDigitOf base) false cs then
    some ((digitsIn? base cs).elim .other fun n => wholeOf n)
  else none

/-! ## Numbers with a fraction or an exponent -/

/-- How many digits a run of digits and underscores has, and the characters behind it. -/
def partedRun (cs : List Char) : Nat × List Char :=
  let run := cs.takeWhile fun c => c.isDigit || c == '_'
  (run.countP Char.isDigit, cs.drop run.length)

/-- The characters behind a fraction, if there is a point. -/
def fraction? : List Char → Option (List Char)
  | '.' :: cs =>
    let (count, rest) := partedRun cs
    if count = 0 then none else some rest
  | cs => some cs

/-- The characters behind an exponent, if there is one. -/
def exponent? : List Char → Option (List Char)
  | [] => some []
  | c :: cs =>
    if c == 'e' || c == 'E' then
      let digits :=
        match cs with
        | '+' :: cs => cs
        | '-' :: cs => cs
        | cs => cs
      let (count, rest) := partedRun digits
      if count = 0 then none else some rest
    else some (c :: cs)

/-- Whether the characters behind the sign are a number with a fraction, an exponent, or both.
Only one digit before the point may be a leading zero. -/
def isReal (cs : List Char) : Bool :=
  let (count, rest) := partedRun cs
  (count == 1 || (1 < count && cs.head? != some '0')) &&
    (fraction? rest).bind exponent? == some []

/-! ## Decimal numbers -/

/-- A decimal number behind its sign, if it has one. -/
def decimal? (negative signed : Bool) (cs : List Char) : Option Value :=
  let rest := cs.dropWhile Char.isDigit
  if rest.any fun c => c == '.' || c == 'e' || c == 'E' then
    if isReal cs && isParted Char.isDigit signed cs then some .other else none
  else if rest.isEmpty || rest.head? == some '_' then
    if (cs.head? == some '0' && cs.length != 1) || !isParted (isDigitOf 16) signed cs then none
    else some <| (digitsIn? 10 cs).elim .other fun n => wholeOf (if negative then -n else n)
  else none

end WeightedDns.Toml
