import WeightedDns.Record.Kind
import WeightedDns.Text.Blank

/-!
# Weighted record sets

A weighted record set is the configuration of one host: records that share zone, host, type and
line, listed in an order that is kept. `RecordSet.fault?` finds the first rule that a set breaks;
`RecordSet.Admissible` says what a set without fault is.
-/

namespace WeightedDns

/-- One record of a weighted set. -/
structure Entry where
  value : String
  ttl : UInt32
  /-- Zero leaves the weight that the record has. -/
  weight : UInt32
  status : Switch
  remark : Option String
  deriving DecidableEq, Repr

namespace Entry

/-- The remark, empty where none is set: the two mean the same. -/
def remarkText (e : Entry) : String := e.remark.getD ""

end Entry

/-- The records of one host, type and line of a zone. -/
structure RecordSet where
  /-- The zone, such as `example.com`. -/
  domain : String
  /-- The name below the zone, `@` for the zone itself. -/
  host : String
  type : RecordType
  line : String
  /-- The priority of mail exchange records. -/
  priority : Option UInt16
  /-- Whether weighting is on for the host. -/
  weighting : Switch
  entries : List Entry
  deriving DecidableEq, Repr

namespace RecordSet

/-- The line of records for which none is configured. -/
def defaultLine : String := "default"

/-- How many records a set holds at most. -/
def entryLimit : Nat := 50

/-- The greatest weight. -/
def weightLimit : UInt32 := 100

/-- A text that every set has to fill in. -/
inductive Field where
  | domain | host | line
  deriving DecidableEq, Repr

/-- The name of a field in configuration files. -/
def Field.name : Field → String
  | .domain => "domain_name"
  | .host => "rr"
  | .line => "line"

/-- A rule that a set breaks. -/
inductive Fault where
  | blankField (field : Field)
  | noEntries
  | tooManyEntries (count : Nat)
  | blankValue (index : Nat)
  | zeroTtl (index : Nat)
  | weightTooGreat (index : Nat) (weight : UInt32)
  | repeatedValue (index : Nat) (value : String)
  deriving DecidableEq, Repr

/-- The wording of a fault. -/
def Fault.message : Fault → String
  | .blankField field => s!"{field.name} must not be empty"
  | .noEntries => "records must contain at least one entry"
  | .tooManyEntries count =>
    s!"records holds {count} entries, at most {entryLimit} are allowed"
  | .blankValue i => s!"records[{i}].value must not be empty"
  | .zeroTtl i => s!"records[{i}].ttl must be at least 1"
  | .weightTooGreat i w =>
    s!"records[{i}].weight must be between 0 and {weightLimit}, got {w}"
  | .repeatedValue i v => s!"records[{i}].value '{v}' is duplicated"

/-- The first rule that the entry at `index` breaks, given the values before it. -/
def entryFault? (index : Nat) (before : List String) (e : Entry) : Option Fault :=
  if Text.isBlank e.value then some (.blankValue index)
  else if e.ttl = 0 then some (.zeroTtl index)
  else if weightLimit < e.weight then some (.weightTooGreat index e.weight)
  else if e.value ∈ before then some (.repeatedValue index e.value)
  else none

/-- The first rule broken by entries that stand at `index` and behind it. -/
def entriesFault? (index : Nat) (before : List String) : List Entry → Option Fault
  | [] => none
  | e :: rest =>
    match entryFault? index before e with
    | some fault => some fault
    | none => entriesFault? (index + 1) (e.value :: before) rest

/-- The first rule that a set breaks: the fields in the order zone, host, line, then the number
of entries, then the entries in order. -/
def fault? (s : RecordSet) : Option Fault :=
  if Text.isBlank s.domain then some (.blankField .domain)
  else if Text.isBlank s.host then some (.blankField .host)
  else if Text.isBlank s.line then some (.blankField .line)
  else if s.entries.isEmpty then some .noEntries
  else if entryLimit < s.entries.length then some (.tooManyEntries s.entries.length)
  else entriesFault? 0 [] s.entries

/-- What a set has to satisfy to be sent to the service. -/
structure Admissible (s : RecordSet) : Prop where
  domain_filled : Text.isBlank s.domain = false
  host_filled : Text.isBlank s.host = false
  line_filled : Text.isBlank s.line = false
  entries_nonempty : s.entries ≠ []
  entries_bounded : s.entries.length ≤ entryLimit
  value_filled : ∀ e ∈ s.entries, Text.isBlank e.value = false
  ttl_positive : ∀ e ∈ s.entries, e.ttl ≠ 0
  weight_bounded : ∀ e ∈ s.entries, e.weight ≤ weightLimit
  values_distinct : (s.entries.map (·.value)).Nodup

/-- Whether two sets differ in what all their records share. -/
def sharedDiffers (s t : RecordSet) : Bool :=
  s.host != t.host || s.type != t.type || s.line != t.line || s.priority != t.priority

end RecordSet

/-- The full name of a host in a zone: the zone for `@` and the empty host, otherwise the host, a
point and the zone. Points behind the zone are left out. -/
def fullName (host zone : String) : String :=
  let zone := String.ofList (zone.toList.reverse.dropWhile (· == '.')).reverse
  if host = "@" ∨ host = "" then zone else s!"{host}.{zone}"

end WeightedDns
