/-!
# Reading characters one after another

The readers of all formats take the characters still to be read and give back what is left of
them.
-/

namespace WeightedDns.Text

/-- The characters after a given run of leading ones. -/
def expect? (word cs : List Char) : Option (List Char) :=
  match word, cs with
  | [], cs => some cs
  | w :: word, c :: cs => if w = c then expect? word cs else none
  | _ :: _, [] => none

/-- The number that a hexadecimal digit of either case stands for. -/
def hexValue? (c : Char) : Option Nat :=
  if '0' ≤ c ∧ c ≤ '9' then some (c.toNat - '0'.toNat)
  else if 'a' ≤ c ∧ c ≤ 'f' then some (c.toNat - 'a'.toNat + 10)
  else if 'A' ≤ c ∧ c ≤ 'F' then some (c.toNat - 'A'.toNat + 10)
  else none

/-- The number that exactly `count` hexadecimal digits stand for, after the value of those before
them. -/
def hexDigits? : Nat → Nat → List Char → Option (Nat × List Char)
  | 0, value, cs => some (value, cs)
  | count + 1, value, c :: cs => do hexDigits? count (16 * value + (← hexValue? c)) cs
  | _ + 1, _, [] => none

/-- The leading decimal digits, and the characters behind them. -/
def digitRun : List Char → List Nat × List Char
  | [] => ([], [])
  | c :: cs =>
    if c.isDigit then
      let (ds, rest) := digitRun cs
      ((c.toNat - '0'.toNat) :: ds, rest)
    else ([], c :: cs)

/-- The number that decimal digits stand for. -/
def digitsValue (ds : List Nat) : Nat := ds.foldl (fun n d => n * 10 + d) 0

/-- A word is read exactly off the texts that start with it. -/
theorem expect?_eq_some_iff {word cs rest : List Char} :
    expect? word cs = some rest ↔ cs = word ++ rest := by
  fun_induction expect? word cs <;> simp_all [eq_comm]

end WeightedDns.Text
