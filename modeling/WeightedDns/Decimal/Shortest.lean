import WeightedDns.Decimal.Binary64

/-!
# The shortest decimal text of a number

Of the decimals that round to a given number, the one with the fewest digits is written, and of
several with as few digits the nearest. `interval` is the set of reals that round to the number;
`shortest` looks for a decimal in it on ever finer grids, where only the two neighbours of the
number itself have to be tried.
-/

namespace WeightedDns.Decimal

/-- A positive decimal, `digits * 10 ^ exponent`. -/
structure Digits where
  digits : Nat
  exponent : Int
  deriving DecidableEq, Repr

namespace Digits

/-- The same value without zeros at the end of the digits; `fuel` bounds their number. -/
def strip (fuel : Nat) (d : Digits) : Digits :=
  match fuel with
  | 0 => d
  | fuel + 1 =>
    if d.digits != 0 && d.digits % 10 == 0 then
      strip fuel ⟨d.digits / 10, d.exponent + 1⟩
    else d

end Digits

/-- How many decimal digits a natural number has; zero has one. -/
def digitCount (n : Nat) : Nat := (Nat.toDigits 10 n).length

/-- The reals that round to a number, as twice the numerators of their bounds over a common
denominator, and whether the bounds belong to them. -/
structure Interval where
  low : Nat
  value : Nat
  high : Nat
  den : Nat
  closed : Bool

namespace Binary64

/-- The reals that round to a positive number: half the way to its neighbours. The neighbour
below is nearer where the exponent steps. -/
def interval (x : Binary64) : Interval :=
  let stepsBelow := x.mantissa == pow2 52 && leastExponent < x.exponent
  let m := 4 * x.mantissa
  let low := if stepsBelow then m - 1 else m - 2
  let e := x.exponent - 2
  let up := pow2 e.toNat
  ⟨low * up, m * up, (m + 2) * up, pow2 (-e).toNat, x.mantissa % 2 == 0⟩

end Binary64

namespace Interval

/-- Whether the decimal `n * 10 ^ k` lies in an interval. -/
def holds (i : Interval) (n : Nat) (k : Int) : Bool :=
  let v := n * pow10 k.toNat * i.den
  let unit := pow10 (-k).toNat
  if i.closed then i.low * unit ≤ v && v ≤ i.high * unit
  else i.low * unit < v && v < i.high * unit

/-- The greatest `e` with `10 ^ e` not above the value. -/
def magnitude (i : Interval) : Int :=
  let e := (digitCount i.value : Int) - digitCount i.den
  if i.den * pow10 e.toNat ≤ i.value * pow10 (-e).toNat then e else e - 1

/-- The nearest decimal of the interval with `n` digits, if it holds one; a tie goes to the even
digit. -/
def onGrid (i : Interval) (n : Nat) : Option Digits :=
  let k := i.magnitude - n + 1
  let num := i.value * pow10 (-k).toNat
  let den := i.den * pow10 k.toNat
  let below := num / den
  let above := below + 1
  match i.holds below k, i.holds above k with
  | true, true =>
    let nearest := Binary64.roundDiv num den
    some ⟨nearest, k⟩
  | true, false => some ⟨below, k⟩
  | false, true => some ⟨above, k⟩
  | false, false => none

end Interval

/-- The shortest decimal that rounds to a positive number. Seventeen digits always suffice. -/
def shortest (x : Binary64) : Digits :=
  let i := x.interval
  let found := (List.range 17).findSome? fun n => i.onGrid (n + 1)
  (found.getD ⟨x.mantissa, 0⟩).strip 20

end WeightedDns.Decimal
