import WeightedDns.Json.Printer
import WeightedDns.Text.Percent

/-!
# Query texts

The parameters of a request are a JSON value, flattened to pairs of a key and a text: the path
through objects and arrays with points between, items counted from one, and `null` left out. The
query has the pairs in the order of their keys, percent-encoded; of pairs with one key the last
one counts.
-/

namespace WeightedDns.Wire.Query

/-- The path to a member. -/
def extend (path key : String) : String := if path = "" then key else s!"{path}.{key}"

mutual

/-- The pairs of a value at the end of a path. -/
def pairs (path : String) : Json → List (String × String)
  | .null | .unreadable => []
  | .bool b => [(path, if b then "true" else "false")]
  | .number n => [(path, Json.numberText n)]
  | .text s => [(path, s)]
  | .array items => itemPairs path 1 items
  | .object members => memberPairs path members

/-- The pairs of items, the first of them with a number. -/
def itemPairs (path : String) (number : Nat) : List Json → List (String × String)
  | [] => []
  | j :: rest => pairs s!"{path}.{number}" j ++ itemPairs path (number + 1) rest

/-- The pairs of members. -/
def memberPairs (path : String) : List (String × Json) → List (String × String)
  | [] => []
  | (key, j) :: rest => pairs (extend path key) j ++ memberPairs path rest

end

/-- The pairs of a value in the order of their keys. -/
def flatten (j : Json) : List (String × String) :=
  (pairs "" j.settled).foldl (fun done p => Json.insertMember p.1 p.2 done) []

/-- Pairs as a query. -/
def render (ps : List (String × String)) : String :=
  String.intercalate "&" (ps.map fun p => Text.Percent.encode p.1 ++ "=" ++ Text.Percent.encode p.2)

/-- The query for parameters. -/
def text (j : Json) : String := render (flatten j)

end WeightedDns.Wire.Query
