import WeightedDns.Toml.Date
import WeightedDns.Toml.Number

/-!
# TOML scalars without quotes

Truth values, numbers, dates and times stand without quotes. `scalar?` takes the characters of one
up to the next delimiter and says what they write.
-/

namespace WeightedDns.Toml

/-- A character of a scalar without quotes. -/
def isInner (c : Char) : Bool :=
  !(['=', ',', '[', ']', '\x7b', '\x7d', ' ', '\t', '#', '\r', '\n'].contains c)

/-- Whether the characters go on like a date or a time of day behind some digits. -/
def hasMoment (cs : List Char) : Bool :=
  match cs.dropWhile Char.isDigit with
  | c :: _ => c == '-' || c == ':'
  | [] => false

/-- What the characters behind the sign of a number write. -/
def signed? (negative : Bool) (cs : List Char) : Option Value :=
  match cs with
  | ['i', 'n', 'f'] => some .other
  | ['n', 'a', 'n'] => some .other
  | [] => none
  | cs => decimal? negative true cs

/-- What the characters of a scalar write. -/
def ofWord? (cs : List Char) : Option Value :=
  match cs with
  | ['t', 'r', 'u', 'e'] => some .other
  | ['f', 'a', 'l', 's', 'e'] => some .other
  | ['i', 'n', 'f'] => some .other
  | ['n', 'a', 'n'] => some .other
  | '0' :: 'x' :: ds => based? 16 ds
  | '0' :: 'o' :: ds => based? 8 ds
  | '0' :: 'b' :: ds => based? 2 ds
  | '+' :: cs => signed? false cs
  | '-' :: cs => signed? true cs
  | [] => none
  | cs =>
    if hasMoment cs then if isMoment cs then some .other else none
    else decimal? false false cs

/-- The scalar at the start of the characters, and the characters behind it. A date takes what
follows behind one space with it, as its time of day. -/
def scalar? (cs : List Char) : Option (Value × List Char) := do
  let word := cs.takeWhile isInner
  match cs.dropWhile isInner with
  | ' ' :: rest =>
    let time := rest.takeWhile isInner
    if date? word == some [] && !time.isEmpty then
      some (← ofWord? (word ++ ' ' :: time), rest.dropWhile isInner)
    else some (← ofWord? word, ' ' :: rest)
  | rest => some (← ofWord? word, rest)

end WeightedDns.Toml
