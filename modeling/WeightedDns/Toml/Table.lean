import WeightedDns.Json.Basic

/-!
# TOML tables

A document is one table that grows statement by statement. A table may be written in pieces, and
the rules on which pieces may be added where hang on how the table came about, its origin: a table
that a header has opened takes no keys from elsewhere, one that dotted keys have made takes only
more dotted keys, and one in braces is complete.

Of the values, texts, whole numbers, arrays and tables are kept. All others are of one kind, as a
record set has no member that takes them; they may stand where a value is passed over.
-/

namespace WeightedDns.Toml

/-- How a table came about. -/
inductive Origin where
  /-- A header names it. -/
  | header
  /-- A header names a table inside it. -/
  | implied
  /-- A dotted key leads into it. -/
  | dotted
  /-- It stands in braces. -/
  | inline
  deriving DecidableEq, Repr

/-- A value of a document. -/
inductive Value where
  | text (value : String)
  | whole (value : Int)
  /-- Any other scalar: a truth value, a number with a fraction, a date, or a whole number beyond
  64 bits. -/
  | other
  /-- An array in brackets. -/
  | array (items : List Value)
  | table (origin : Origin) (members : List (String × Value))
  /-- An array whose tables each have a header of their own: those before the last, and the
  members of the last, which is the one that still grows. -/
  | tables (earlier : List Value) (last : List (String × Value))
  deriving Repr

/-- The members of a table in the order of the document. -/
abbrev Members := List (String × Value)

/-- A key with its dots. -/
structure Key where
  /-- The tables that it leads through. -/
  path : List String
  name : String
  deriving Repr

namespace Members

/-- Change the value of a key. The change sees no value where the key is new, and may refuse. -/
def change? (key : String) (change : Option Value → Option Value) : Members → Option Members
  | [] => (change none).map fun v => [(key, v)]
  | (k, v) :: rest =>
    if k = key then (change (some v)).map fun v => (k, v) :: rest
    else (change? key change rest).map ((k, v) :: ·)

/-- Change the members of the table to which a path leads, given its origin. A table that is
missing on the way is made with the origin `fresh`; the last of several tables stands for them;
dotted keys do not lead into a table with a header. -/
def within? (fresh : Origin) (change : Origin → Members → Option Members) :
    List String → Origin → Members → Option Members
  | [], origin, ms => change origin ms
  | key :: path, _, ms =>
    ms.change? key fun
      | none => (within? fresh change path fresh []).map (.table fresh)
      | some (.table origin inner) =>
        if origin = .inline || (origin = .header && fresh = .dotted) then none
        else (within? fresh change path origin inner).map (.table origin)
      | some (.tables earlier last) =>
        (within? fresh change path .header last).map (.tables earlier)
      | some _ => none

/-- Put a value under a new key of a table; if the key has dots, the last table on its way is one
that dotted keys have made. -/
def put? (key : Key) (value : Value) (origin : Origin) (ms : Members) : Option Members :=
  within? .dotted (fun origin ms =>
      if key.path.isEmpty || origin = .dotted then
        ms.change? key.name fun old => if old.isNone then some value else none
      else none)
    key.path origin ms

/-- Open a table by its header. It is new, or so far only implied. -/
def openTable? (key : Key) (ms : Members) : Option Members :=
  within? .implied (fun _ ms => ms.change? key.name fun
      | none => some (.table .header [])
      | some (.table .implied inner) => some (.table .header inner)
      | some _ => none)
    key.path .header ms

/-- Open one more of several tables by its header. -/
def openElement? (key : Key) (ms : Members) : Option Members :=
  within? .implied (fun _ ms => ms.change? key.name fun
      | none => some (.tables [] [])
      | some (.tables earlier last) => some (.tables (earlier ++ [.table .header last]) [])
      | some _ => none)
    key.path .header ms

end Members

/-- A document as far as it is read. -/
structure Document where
  members : Members := []
  /-- The table of the last header; empty for the document itself. -/
  current : List String := []
  deriving Repr

namespace Document

/-- Add a key with its value. -/
def put? (doc : Document) (key : Key) (value : Value) : Option Document := do
  some { doc with
    members := ← doc.members.within? .implied (Members.put? key value) doc.current .header }

/-- Go on in a table with a header of its own. -/
def openTable? (doc : Document) (key : Key) : Option Document := do
  some ⟨← doc.members.openTable? key, key.path ++ [key.name]⟩

/-- Go on in one more of several tables. -/
def openElement? (doc : Document) (key : Key) : Option Document := do
  some ⟨← doc.members.openElement? key, key.path ++ [key.name]⟩

end Document

/-! ## Documents as JSON -/

namespace Value

mutual

/-- A value in the form that records are read from. -/
def toJson : Value → Json
  | .text s => .text s
  | .whole n => .number (.whole n)
  | .other => .unreadable
  | .array items => .array (itemsToJson items)
  | .table _ ms => .object (membersToJson ms)
  | .tables earlier last => .array (itemsToJson earlier ++ [.object (membersToJson last)])

/-- `toJson` of every item. -/
def itemsToJson : List Value → List Json
  | [] => []
  | v :: rest => toJson v :: itemsToJson rest

/-- `toJson` of every member. -/
def membersToJson : List (String × Value) → List (String × Json)
  | [] => []
  | (k, v) :: rest => (k, toJson v) :: membersToJson rest

end

end Value

/-- A document in the form that records are read from. -/
def Document.toJson (doc : Document) : Json := .object (Value.membersToJson doc.members)

end WeightedDns.Toml
