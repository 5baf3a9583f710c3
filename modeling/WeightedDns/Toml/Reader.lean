import WeightedDns.Toml.Scalar
import WeightedDns.Toml.Text

/-!
# Reading TOML

A document is a sequence of statements, each on a line of its own: a key with its value, or the
header of a table. `Document.parse?` reads them one after another into the document. Arrays and
tables in braces may stand in one another up to a depth, `deepest`. Recursion is bounded by a count
of steps that the length of the text always covers.
-/

namespace WeightedDns.Toml

open Text

/-- How deep arrays and tables in braces may stand in one another. -/
def deepest : Nat := 80

mutual

/-- A value at the start of the characters, and the characters behind it. There is `room` for so
many arrays and tables in one another. -/
def readValue? (steps room : Nat) (cs : List Char) : Option (Value × List Char) :=
  match steps with
  | 0 => none
  | steps + 1 =>
    match room, cs with
    | 0, '[' :: _ => none
    | 0, '\x7b' :: _ => none
    | room + 1, '[' :: rest => do
      let (items, rest) ← readItems? steps room rest []
      some (.array items, rest)
    | room + 1, '\x7b' :: rest => do
      let (members, rest) ← readPairs? steps room rest []
      some (.table .inline members, rest)
    | _, c :: rest =>
      if c == '"' || c == '\'' then do
        let (s, rest) ← text? (c :: rest)
        some (.text s, rest)
      else scalar? (c :: rest)
    | _, [] => none

/-- The items up to the closing bracket, after those in `done` reversed. -/
def readItems? (steps room : Nat) (cs : List Char) (done : List Value) :
    Option (List Value × List Char) :=
  match steps with
  | 0 => none
  | steps + 1 =>
    match skipLines false cs with
    | ']' :: rest => some (done.reverse, rest)
    | cs => do
      let (v, rest) ← readValue? steps room cs
      match skipLines false rest with
      | ',' :: rest => readItems? steps room rest (v :: done)
      | ']' :: rest => some ((v :: done).reverse, rest)
      | _ => none

/-- The members up to the closing brace, put into those read before. Lines may break everywhere
but within a key. -/
def readPairs? (steps room : Nat) (cs : List Char) (members : Members) :
    Option (Members × List Char) :=
  match steps with
  | 0 => none
  | steps + 1 =>
    match skipLines false cs with
    | '\x7d' :: rest => some (members, rest)
    | cs => do
      let (key, rest) ← key? steps [] cs
      let rest ← expect? ['='] (skipLines false rest)
      let (v, rest) ← readValue? steps room (skipLines false rest)
      let members ← members.put? key v .inline
      match skipLines false rest with
      | ',' :: rest => readPairs? steps room rest members
      | '\x7d' :: rest => some (members, rest)
      | _ => none

end

namespace Document

/-- Read the statements that are left into a document. -/
def readStatements? (steps : Nat) (doc : Document) (cs : List Char) : Option Document :=
  match steps with
  | 0 => none
  | steps + 1 =>
    match skipLines false cs with
    | [] => some doc
    | '[' :: '[' :: rest => do
      let (key, rest) ← key? steps [] (skipGap rest)
      let rest ← expect? [']', ']'] rest
      readStatements? steps (← doc.openElement? key) (← lineEnd? rest)
    | '[' :: rest => do
      let (key, rest) ← key? steps [] (skipGap rest)
      let rest ← expect? [']'] rest
      readStatements? steps (← doc.openTable? key) (← lineEnd? rest)
    | cs => do
      let (key, rest) ← key? steps [] cs
      let rest ← expect? ['='] rest
      let (v, rest) ← readValue? steps deepest (skipGap rest)
      readStatements? steps (← doc.put? key v) (← lineEnd? rest)

/-- The document that a text holds, none if it is not well formed. A byte order mark may stand
first. -/
def parse? (s : String) : Option Document :=
  let cs :=
    match s.toList with
    | '\uFEFF' :: cs => cs
    | cs => cs
  readStatements? (2 * cs.length + 2) {} cs

end Document

end WeightedDns.Toml
