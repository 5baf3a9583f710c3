import WeightedDns.Json.Basic

/-!
# Reading records from JSON

A record is read from an object by the names of its members, or from an array by their order.
Members with other names are passed over, unless the record is closed; a member may stand only
once. An optional member may be `null`, and may be missing from an object, but not from an array
that ends before it; a member with a default may be missing from both, but not be `null`.
-/

namespace WeightedDns.Json

/-- The members of a record as found in a value. -/
structure Members where
  /-- Whether they were found by name. -/
  named : Bool
  /-- The values found, each with the name of its member. -/
  found : List (String × Json)

/-- The names that stand more than once among the keys of an object. -/
def repeated (names : List String) (members : List (String × Json)) : Bool :=
  names.any fun n => 1 < (members.filter fun m => m.1 == n).length

/-- Find the members with the given names; a closed record allows no other. -/
def members? (names : List String) (closed : Bool) : Json → Option Members
  | .object ms =>
    if repeated names ms then none
    else if closed && ms.any (fun m => !names.contains m.1) then none
    else some ⟨true, ms.filter fun m => names.contains m.1⟩
  | .array items =>
    if names.length < items.length then none else some ⟨false, names.zip items⟩
  | _ => none

/-- Read a value that may be `null`. -/
def asOptional? (read : Json → Option α) : Json → Option (Option α)
  | .null => some none
  | j => (read j).map some

namespace Members

/-- The value found for a member. -/
def get? (m : Members) (name : String) : Option Json := member? name m.found

/-- A member that must be there. -/
def required (m : Members) (name : String) (read : Json → Option α) : Option α :=
  (m.get? name).bind read

/-- A member that may be `null`, and may be missing if members go by name. -/
def optional (m : Members) (name : String) (read : Json → Option α) : Option (Option α) :=
  match m.get? name with
  | none => if m.named then some none else none
  | some j => asOptional? read j

/-- A member that may be missing, with the value it has then. -/
def withDefault (m : Members) (name : String) (read : Json → Option α) (default : α) :
    Option α :=
  match m.get? name with
  | none => some default
  | some j => read j

end Members

/-- Read a text. -/
def asText? : Json → Option String
  | .text s => some s
  | _ => none

/-- Read a truth value. -/
def asBool? : Json → Option Bool
  | .bool b => some b
  | _ => none

/-- Read a whole number from zero up to a bound that it does not reach. -/
def asNatBelow? (bound : Nat) : Json → Option Nat
  | .number (.whole n) => if 0 ≤ n ∧ n < bound then some n.toNat else none
  | _ => none

/-- Read a whole number of 16 bits. -/
def asUInt16? (j : Json) : Option UInt16 := (asNatBelow? UInt16.size j).map UInt16.ofNat

/-- Read a whole number of 32 bits. -/
def asUInt32? (j : Json) : Option UInt32 := (asNatBelow? UInt32.size j).map UInt32.ofNat

/-- Read a whole number of 64 bits. -/
def asUInt64? (j : Json) : Option UInt64 := (asNatBelow? UInt64.size j).map UInt64.ofNat

/-- Read an array whose items are all read in one way. -/
def asList? (read : Json → Option α) : Json → Option (List α)
  | .array items => items.mapM read
  | _ => none

/-- Read one of several names. A name may stand as a text, or as the only key of an object whose
value satisfies `payload`. -/
def asName? (payload : Json → Bool) (ofName : String → Option α) : Json → Option α
  | .text s => ofName s
  | .object [(k, v)] => if payload v then ofName k else none
  | _ => none

/-- The payload of a name that is written as a key: `null`. -/
def isNull : Json → Bool
  | .null => true
  | _ => false

/-- A 16-bit number as a value. -/
def ofUInt16 (n : UInt16) : Json := ofNat n.toNat

/-- A 32-bit number as a value. -/
def ofUInt32 (n : UInt32) : Json := ofNat n.toNat

/-- A 64-bit number as a value. -/
def ofUInt64 (n : UInt64) : Json := ofNat n.toNat

/-! ## Written numbers read back -/

@[simp] theorem asText?_text (s : String) : asText? (.text s) = some s := rfl

@[simp] theorem asBool?_bool (b : Bool) : asBool? (.bool b) = some b := rfl

theorem asNatBelow?_ofNat {n bound : Nat} (h : n < bound) :
    asNatBelow? bound (ofNat n) = some n := by
  simp [asNatBelow?, ofNat]
  omega

@[simp] theorem asUInt16?_ofUInt16 (n : UInt16) : asUInt16? (ofUInt16 n) = some n := by
  simp [asUInt16?, ofUInt16, asNatBelow?_ofNat n.toNat_lt_size]

@[simp] theorem asUInt32?_ofUInt32 (n : UInt32) : asUInt32? (ofUInt32 n) = some n := by
  simp [asUInt32?, ofUInt32, asNatBelow?_ofNat n.toNat_lt_size]

@[simp] theorem asUInt64?_ofUInt64 (n : UInt64) : asUInt64? (ofUInt64 n) = some n := by
  simp [asUInt64?, ofUInt64, asNatBelow?_ofNat n.toNat_lt_size]

end WeightedDns.Json
