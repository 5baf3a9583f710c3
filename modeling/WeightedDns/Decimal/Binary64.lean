/-!
# Finite binary floating point numbers

A finite number of the 64-bit format is a sign, a mantissa below `2 ^ 53` and an exponent of two.
Ratios of natural numbers are rounded to the nearest such number, a tie going to the even
mantissa, and all arithmetic on them is exact up to that one rounding.
-/

namespace WeightedDns.Decimal

/-- A power of two. -/
def pow2 (n : Nat) : Nat := Nat.pow 2 n

/-- A power of ten. -/
def pow10 (n : Nat) : Nat := Nat.pow 10 n

/-- A finite number of the 64-bit binary format, `± mantissa * 2 ^ exponent`. -/
structure Binary64 where
  /-- Whether the sign is minus; zero has both signs. -/
  negative : Bool
  /-- Below `2 ^ 53`; at least `2 ^ 52` unless the exponent is the least one. -/
  mantissa : Nat
  /-- From `-1074` to `971`. -/
  exponent : Int
  deriving DecidableEq, Repr, Inhabited

namespace Binary64

/-- The exponent of the numbers nearest to zero. -/
def leastExponent : Int := -1074

/-- The exponent of the greatest numbers. -/
def greatestExponent : Int := 971

/-- Zero with the given sign. -/
def zero (negative : Bool) : Binary64 := ⟨negative, 0, leastExponent⟩

/-- Whether a number is zero, of either sign. -/
def isZero (x : Binary64) : Bool := x.mantissa == 0

/-- A quotient of natural numbers rounded to the nearest one, a tie going to the even one. -/
def roundDiv (num den : Nat) : Nat :=
  let q := num / den
  let r := num % den
  if 2 * r < den then q
  else if den < 2 * r then q + 1
  else q + q % 2

/-- The ratio `num / den` divided by `2 ^ e`, as a ratio. -/
def scaled (num den : Nat) (e : Int) : Nat × Nat :=
  if 0 ≤ e then (num, den * pow2 e.toNat) else (num * pow2 (-e).toNat, den)

/-- The least exponent at which the ratio `num / den` has a mantissa below `2 ^ 53`. -/
def exponentOf (num den : Nat) : Int :=
  let low := max leastExponent ((num.log2 : Int) - den.log2 - 53)
  let s := scaled num den low
  if s.1 < pow2 53 * s.2 then low else low + 1

/-- The ratio `num / den` rounded to the nearest number, none if that is beyond the greatest. -/
def ofRatio (negative : Bool) (num den : Nat) : Option Binary64 :=
  let e := exponentOf num den
  let s := scaled num den e
  let m := roundDiv s.1 s.2
  let x : Binary64 := if m = pow2 53 then ⟨negative, pow2 52, e + 1⟩ else ⟨negative, m, e⟩
  if x.exponent ≤ greatestExponent then some x else none

/-- The absolute value as a ratio of natural numbers. -/
def ratio (x : Binary64) : Nat × Nat :=
  if 0 ≤ x.exponent then (x.mantissa * pow2 x.exponent.toNat, 1)
  else (x.mantissa, pow2 (-x.exponent).toNat)

/-- The product, rounded once; none if it is beyond the greatest number. -/
def mul (x y : Binary64) : Option Binary64 :=
  let a := x.ratio
  let b := y.ratio
  ofRatio (x.negative != y.negative) (a.1 * b.1) (a.2 * b.2)

/-- The quotient by a number that is not zero, rounded once. -/
def div (x y : Binary64) : Option Binary64 :=
  let a := x.ratio
  let b := y.ratio
  ofRatio (x.negative != y.negative) (a.1 * b.2) (a.2 * b.1)

/-- The number with the other sign. -/
def neg (x : Binary64) : Binary64 := { x with negative := !x.negative }

/-- A natural number, rounded; none if it is beyond the greatest number. -/
def ofNat (n : Nat) : Option Binary64 := ofRatio false n 1

/-- A power of ten, rounded; none if it is beyond the greatest number. -/
def powerOfTen (n : Nat) : Option Binary64 := ofRatio false (pow10 n) 1

/-- A decimal number read in one or two roundings: the digits are rounded first, then their
product with a power of ten, or their quotient for a negative exponent. Below `10 ^ -308` the
quotient is taken in steps of that size. None if the result is beyond the greatest number. -/
def ofDigits (digits : Nat) (exponent : Int) : Option Binary64 := do
  let x ← ofNat digits
  if x.isZero then some x
  else if 308 < exponent then none
  else if 0 ≤ exponent then x.mul (← powerOfTen exponent.toNat)
  else if -308 ≤ exponent then x.div (← powerOfTen (-exponent).toNat)
  else
    let y ← x.div (← powerOfTen 308)
    if y.isZero then some y
    else if -616 ≤ exponent then y.div (← powerOfTen (-exponent - 308).toNat)
    else some (zero false)

end Binary64

end WeightedDns.Decimal
