import WeightedDns.Decimal.Binary64

/-!
# JSON values

State files, replies of the service and everything printed are JSON. Whole numbers from
`-2 ^ 63` to `2 ^ 64 - 1` are kept exactly, all others as binary floating point. The members of an
object are kept in the order of the text, repeated keys included, so that a reader of a record can
refuse a repeated member; `Json.settled` gives the other reading, where the last one counts and
members are in the order of their keys.
-/

namespace WeightedDns

/-- A number of a JSON text. -/
inductive Json.Number where
  /-- A whole number from `-2 ^ 63` to `2 ^ 64 - 1`. -/
  | whole (value : Int)
  /-- Any other number that is not beyond the greatest finite one, and the number `-0`. -/
  | float (value : Decimal.Binary64)
  deriving DecidableEq, Repr

/-- A JSON value. -/
inductive Json where
  | null
  | bool (value : Bool)
  | number (value : Json.Number)
  | text (value : String)
  | array (items : List Json)
  | object (members : List (String × Json))
  /-- A value that is well formed and denotes nothing: a number beyond the greatest finite one,
  or a text or key with half of a surrogate pair. In other formats, also a value of a kind that no
  record has. It may be passed over, but not read. -/
  | unreadable
  deriving Repr, Inhabited

namespace Json

/-- The least whole number that is kept exactly. -/
def leastWhole : Int := Int64.minValue.toInt

/-- The greatest whole number that is kept exactly. -/
def greatestWhole : Int := UInt64.size - 1

/-- A whole number as a value. -/
def ofNat (n : Nat) : Json := .number (.whole n)

/-- A value that may be missing, `null` where it is. -/
def ofOption (write : α → Json) : Option α → Json
  | none => .null
  | some a => write a

/-- A list of values. -/
def ofList (write : α → Json) (items : List α) : Json := .array (items.map write)

/-- A member that is left out where it is missing. -/
def optionalMember (key : String) (write : α → Json) : Option α → List (String × Json)
  | none => []
  | some a => [(key, write a)]

/-- Put a value among others in the order of their keys, in place of one with the same key. -/
def insertMember (key : String) (value : α) : List (String × α) → List (String × α)
  | [] => [(key, value)]
  | (k, v) :: rest =>
    if key < k then (key, value) :: (k, v) :: rest
    else if key = k then (key, value) :: rest
    else (k, v) :: insertMember key value rest

mutual

/-- A value with the members of every object in the order of their keys, of several with one key
the last. -/
def settled : Json → Json
  | .array items => .array (settledItems items)
  | .object members => .object (settledMembers members [])
  | j => j

/-- `settled` on every item. -/
def settledItems : List Json → List Json
  | [] => []
  | j :: rest => settled j :: settledItems rest

/-- Insert the members one by one, settled, into `done`. -/
def settledMembers : List (String × Json) → List (String × Json) → List (String × Json)
  | [], done => done
  | (k, v) :: rest, done => settledMembers rest (insertMember k (settled v) done)

end

/-- The value of the first member with a key. -/
def member? (key : String) : List (String × Json) → Option Json
  | [] => none
  | (k, v) :: rest => if k = key then some v else member? key rest

/-- The member of an object by its key, none for another value. -/
def get? (j : Json) (key : String) : Option Json :=
  match j with
  | .object members => member? key members
  | _ => none

mutual

/-- Whether a value can be read as a whole, with arrays and objects nested at most `depth` deep. -/
def readable (depth : Nat) : Json → Bool
  | .unreadable => false
  | .array items =>
    match depth with
    | 0 => false
    | depth + 1 => readableItems depth items
  | .object members =>
    match depth with
    | 0 => false
    | depth + 1 => readableMembers depth members
  | _ => true

/-- `readable` of every item. -/
def readableItems (depth : Nat) : List Json → Bool
  | [] => true
  | j :: rest => readable depth j && readableItems depth rest

/-- `readable` of every member. -/
def readableMembers (depth : Nat) : List (String × Json) → Bool
  | [] => true
  | (_, j) :: rest => readable depth j && readableMembers depth rest

end

/-- How deep arrays and objects may be nested in a value that is read as a whole. -/
def depthLimit : Nat := 127

end Json

end WeightedDns
