import WeightedDns.Json.Record
import WeightedDns.Text.Letters

/-!
# Record types and switches

The record types that can be members of a weighted set, and the two positions of a switch: the
status of a record, and whether weighting is on for a host. Both are read from text in any letter
case, and from JSON only in their written form.
-/

namespace WeightedDns

/-- A text that names no value of its kind. -/
structure UnknownName where
  /-- What the text should have named. -/
  kind : String
  value : String
  deriving DecidableEq, Repr

/-- The wording of the error. -/
def UnknownName.message (e : UnknownName) : String :=
  s!"unsupported {e.kind}: {e.value}"

/-- The type of a DNS record. -/
inductive RecordType where
  | a | ns | mx | txt | cname | srv | aaaa | caa
  deriving DecidableEq, Repr

namespace RecordType

/-- The written form. -/
def name : RecordType → String
  | .a => "A"
  | .ns => "NS"
  | .mx => "MX"
  | .txt => "TXT"
  | .cname => "CNAME"
  | .srv => "SRV"
  | .aaaa => "AAAA"
  | .caa => "CAA"

/-- The record type with a written form. -/
def ofName? (s : String) : Option RecordType :=
  if s = "A" then some .a
  else if s = "NS" then some .ns
  else if s = "MX" then some .mx
  else if s = "TXT" then some .txt
  else if s = "CNAME" then some .cname
  else if s = "SRV" then some .srv
  else if s = "AAAA" then some .aaaa
  else if s = "CAA" then some .caa
  else none

/-- Read a record type in any letter case. -/
def parse (s : String) : Except UnknownName RecordType :=
  match ofName? (Text.raise s) with
  | some t => .ok t
  | none => .error ⟨"record type", s⟩

/-- A record type as JSON. -/
def toJson (t : RecordType) : Json := .text t.name

/-- Read a record type from JSON; `payload` judges the value under a name that is a key. -/
def ofJson? (payload : Json → Bool) (j : Json) : Option RecordType :=
  j.asName? payload ofName?

@[simp] theorem ofName?_name (t : RecordType) : ofName? t.name = some t := by
  cases t <;> decide

@[simp] theorem ofJson?_toJson (payload : Json → Bool) (t : RecordType) :
    ofJson? payload t.toJson = some t := ofName?_name t

end RecordType

/-- The position of a switch. -/
inductive Switch where
  | enabled | disabled
  deriving DecidableEq, Repr, Inhabited

namespace Switch

/-- The written form. -/
def name : Switch → String
  | .enabled => "ENABLE"
  | .disabled => "DISABLE"

/-- The form that a request to set the status of a record carries. -/
def parameter : Switch → String
  | .enabled => "Enable"
  | .disabled => "Disable"

/-- Whether the switch is on. -/
def isOn : Switch → Bool
  | .enabled => true
  | .disabled => false

/-- The position that is on exactly when a condition holds. -/
def ofBool : Bool → Switch
  | true => .enabled
  | false => .disabled

/-- The position with a written form. -/
def ofName? (s : String) : Option Switch :=
  if s = "ENABLE" then some .enabled
  else if s = "DISABLE" then some .disabled
  else none

/-- Read a position in any letter case. -/
def parse (s : String) : Except UnknownName Switch :=
  match ofName? (Text.raise s) with
  | some t => .ok t
  | none => .error ⟨"status", s⟩

/-- A position as JSON. -/
def toJson (s : Switch) : Json := .text s.name

/-- Read a position from JSON; `payload` judges the value under a name that is a key. -/
def ofJson? (payload : Json → Bool) (j : Json) : Option Switch :=
  j.asName? payload ofName?

@[simp] theorem isOn_ofBool (b : Bool) : (ofBool b).isOn = b := by cases b <;> rfl

@[simp] theorem ofBool_isOn (s : Switch) : ofBool s.isOn = s := by cases s <;> rfl

@[simp] theorem ofName?_name (s : Switch) : ofName? s.name = some s := by
  cases s <;> decide

@[simp] theorem ofJson?_toJson (payload : Json → Bool) (s : Switch) :
    ofJson? payload s.toJson = some s := ofName?_name s

end Switch

end WeightedDns
