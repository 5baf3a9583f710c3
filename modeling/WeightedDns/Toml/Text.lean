import WeightedDns.Toml.Table
import WeightedDns.Text.Scan

/-!
# The words of a TOML document

White space and comments, texts and keys. A line ends with a line feed, or a
carriage return and a line feed; no other control character but the tab may stand in a text or a
comment.
-/

namespace WeightedDns.Toml

open Text

/-! ## White space and comments -/

/-- White space within a line. -/
def isGap (c : Char) : Bool := c == ' ' || c == '\t'

/-- The characters after white space within a line. -/
def skipGap (cs : List Char) : List Char := cs.dropWhile isGap

/-- The characters after a line break. -/
def lineBreak? : List Char → Option (List Char)
  | '\n' :: cs => some cs
  | '\r' :: '\n' :: cs => some cs
  | _ => none

/-- The characters after white space and line breaks. -/
def skipBreaks : List Char → List Char
  | [] => []
  | '\r' :: '\n' :: cs => skipBreaks cs
  | c :: cs => if isGap c || c == '\n' then skipBreaks cs else c :: cs

/-- A character that may stand for itself in a comment. -/
def isPlain (c : Char) : Bool := c == '\t' || (0x20 ≤ c.toNat && c.toNat != 0x7f)

/-- The characters after white space, line breaks and comments; `comment` says that one is under
way. -/
def skipLines (comment : Bool) : List Char → List Char
  | [] => []
  | c :: cs =>
    if comment && isPlain c then skipLines true cs
    else if isGap c || c == '\n' then skipLines false cs
    else if c == '\r' && cs.head? == some '\n' then skipLines false cs
    else if c == '#' then skipLines true cs
    else c :: cs

/-- The characters after the end of a line, which may have a comment. -/
def lineEnd? (cs : List Char) : Option (List Char) :=
  let cs :=
    match skipGap cs with
    | '#' :: cs => cs.dropWhile isPlain
    | cs => cs
  if cs.isEmpty then some [] else lineBreak? cs

/-! ## Texts -/

/-- The character whose code is written with some hexadecimal digits. -/
def codedChar? (digits : Nat) (cs : List Char) : Option (Char × List Char) := do
  let (n, rest) ← hexDigits? digits 0 cs
  if n.isValidChar then some (Char.ofNat n, rest) else none

/-- The character of an escape, and the characters behind it. -/
def escape? : List Char → Option (Char × List Char)
  | '"' :: cs => some ('"', cs)
  | '\\' :: cs => some ('\\', cs)
  | 'b' :: cs => some ('\x08', cs)
  | 'e' :: cs => some ('\x1b', cs)
  | 'f' :: cs => some ('\x0c', cs)
  | 'n' :: cs => some ('\n', cs)
  | 'r' :: cs => some ('\r', cs)
  | 't' :: cs => some ('\t', cs)
  | 'x' :: cs => codedChar? 2 cs
  | 'u' :: cs => codedChar? 4 cs
  | 'U' :: cs => codedChar? 8 cs
  | _ => none

/-- The rest of a text on one line after its opening quote: the characters in `done` reversed and
those up to the closing quote. Escapes count between double quotes only. -/
def closeLine? (quote : Char) (steps : Nat) (done cs : List Char) :
    Option (String × List Char) :=
  match steps, cs with
  | 0, _ => none
  | _, [] => none
  | steps + 1, c :: cs =>
    if c == quote then some (String.ofList done.reverse, cs)
    else if c == '\\' && quote == '"' then do
      let (c, rest) ← escape? cs
      closeLine? quote steps (c :: done) rest
    else if isPlain c then closeLine? quote steps (c :: done) cs
    else none

/-- The rest of a text over several lines after its three opening quotes. Up to two quotes may
stand before the three closing ones. A backslash at the end of a line takes the white space and
line breaks behind it away. -/
def closeLines? (quote : Char) (steps : Nat) (done cs : List Char) :
    Option (String × List Char) :=
  match steps, cs with
  | 0, _ => none
  | _, [] => none
  | steps + 1, c :: cs =>
    if c == quote then
      match expect? [quote, quote] cs with
      | none => closeLines? quote steps (c :: done) cs
      | some rest =>
        let inner := (rest.take 2).takeWhile (· == quote)
        some (String.ofList (done.reverse ++ inner), rest.drop inner.length)
    else if c == '\\' && quote == '"' then
      match lineBreak? (skipGap cs) with
      | some rest => closeLines? quote steps done (skipBreaks rest)
      | none => do
        let (c, rest) ← escape? cs
        closeLines? quote steps (c :: done) rest
    else if isPlain c || c == '\n' || (c == '\r' && cs.head? == some '\n') then
      closeLines? quote steps (c :: done) cs
    else none

/-- A text between quotes; over several lines, a line break right after the quotes is not part of
it. -/
def text? (cs : List Char) : Option (String × List Char) :=
  match cs with
  | [] => none
  | quote :: cs =>
    match expect? [quote, quote] cs with
    | some rest => closeLines? quote cs.length [] ((lineBreak? rest).getD rest)
    | none => closeLine? quote (cs.length + 1) [] cs

/-! ## Keys -/

/-- A character of a key without quotes. -/
def isBare (c : Char) : Bool := c.isAlphanum || c == '_' || c == '-'

/-- A key without dots. -/
def name? (cs : List Char) : Option (String × List Char) :=
  match cs with
  | [] => none
  | c :: rest =>
    if c == '"' || c == '\'' then closeLine? c (rest.length + 1) [] rest
    else
      let word := cs.takeWhile isBare
      if word.isEmpty then none else some (String.ofList word, cs.dropWhile isBare)

/-- The most tables that a key leads through. -/
def longestPath : Nat := 79

/-- A key and the white space behind it, after the names in `path`. -/
def key? (steps : Nat) (path : List String) (cs : List Char) : Option (Key × List Char) :=
  match steps with
  | 0 => none
  | steps + 1 => do
    let (name, rest) ← name? cs
    match skipGap rest with
    | '.' :: rest => key? steps (path ++ [name]) (skipGap rest)
    | rest => if path.length ≤ longestPath then some (⟨path, name⟩, rest) else none

end WeightedDns.Toml
