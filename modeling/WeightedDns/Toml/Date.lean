import WeightedDns.Text.Scan

/-!
# Dates and times

A TOML document may give a date, a time of day, or both with the distance to universal time.
Nothing here is kept of them but whether they are well formed: `isMoment` says so of the
characters of one. A minute may have a 61st second, and the seconds may be left out.
-/

namespace WeightedDns.Toml

open Text

/-- The number that exactly `count` decimal digits stand for, and the characters behind them. -/
def decimals? (count : Nat) (cs : List Char) : Option (Nat × List Char) :=
  let ds := cs.take count
  if ds.length = count ∧ ds.all Char.isDigit then some (digitsValue (digitRun ds).1, cs.drop count)
  else none

/-- The characters behind a number of two digits that is at most `most`. -/
def pair? (most : Nat) (cs : List Char) : Option (List Char) := do
  let (n, rest) ← decimals? 2 cs
  if n ≤ most then some rest else none

/-- A year with a 29th of February. -/
def isLeap (year : Nat) : Bool := year % 4 == 0 && (year % 100 != 0 || year % 400 == 0)

/-- How many days a month of some year has. -/
def daysIn (year month : Nat) : Nat :=
  match month with
  | 2 => if isLeap year then 29 else 28
  | 4 | 6 | 9 | 11 => 30
  | _ => 31

/-- The characters behind a date. -/
def date? (cs : List Char) : Option (List Char) := do
  let (year, rest) ← decimals? 4 cs
  let (month, rest) ← decimals? 2 (← expect? ['-'] rest)
  let (day, rest) ← decimals? 2 (← expect? ['-'] rest)
  if 1 ≤ month ∧ month ≤ 12 ∧ 1 ≤ day ∧ day ≤ daysIn year month then some rest else none

/-- The characters behind a time of day. Its seconds may have a fraction. -/
def time? (cs : List Char) : Option (List Char) := do
  let rest ← pair? 23 cs
  let rest ← pair? 59 (← expect? [':'] rest)
  match rest with
  | ':' :: rest =>
    match ← pair? 60 rest with
    | '.' :: rest =>
      let (ds, rest) := digitRun rest
      if ds.isEmpty then none else some rest
    | rest => some rest
  | rest => some rest

/-- Whether the characters behind a time of day are its distance to universal time, or none. -/
def isZone : List Char → Bool
  | [] => true
  | [c] => c == 'Z' || c == 'z'
  | c :: cs =>
    (c == '+' || c == '-') &&
      ((pair? 23 cs).bind fun rest => (expect? [':'] rest).bind (pair? 59)) == some []

/-- Whether the characters are a date, a time of day, or a date with a time of day behind a letter
or a space. Only the last may name a distance to universal time. -/
def isMoment (cs : List Char) : Bool :=
  match date? cs with
  | none => time? cs == some []
  | some [] => true
  | some (c :: rest) => (c == 'T' || c == 't' || c == ' ') && (time? rest).any isZone

end WeightedDns.Toml
