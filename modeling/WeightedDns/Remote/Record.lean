import WeightedDns.Record.Kind

/-!
# Records and requests at the service

What the service stores and lists, and what it is asked for. All of it can be written as JSON and
read back; a member that may be missing is written as `null`.
-/

namespace WeightedDns

/-- A record as the service stores it. -/
structure StoredRecord where
  id : String
  /-- The zone that the record belongs to. -/
  domain : String
  host : String
  type : RecordType
  value : String
  ttl : UInt32
  line : String
  /-- Missing where an action does not report it. -/
  weight : Option UInt32
  status : Switch
  remark : Option String
  priority : Option UInt16
  locked : Bool
  deriving DecidableEq, Repr

/-- A zone. -/
structure DomainSummary where
  id : Option String
  name : String
  recordCount : Option UInt32
  deriving DecidableEq, Repr

/-- The weighting of one host. -/
structure WeightedHost where
  /-- The full name, such as `www.example.com`. -/
  name : String
  recordCount : UInt32
  /-- Whether weighting is on. -/
  isOpen : Bool
  type : Option String
  line : Option String
  deriving DecidableEq, Repr

/-- Which records to list: those with the keywords in their host and value and with the type. -/
structure RecordQuery where
  hostKeyword : Option String
  type : Option RecordType
  valueKeyword : Option String
  deriving DecidableEq, Repr

/-- A record to be added. -/
structure NewRecord where
  domain : String
  host : String
  type : RecordType
  value : String
  ttl : UInt32
  line : String
  priority : Option UInt16
  deriving DecidableEq, Repr

/-- What a record is to be changed to. -/
structure RecordChange where
  id : String
  host : String
  type : RecordType
  value : String
  ttl : UInt32
  line : String
  priority : Option UInt16
  deriving DecidableEq, Repr

/-- A request to switch the weighting of a host on or off. -/
structure WeightingRequest where
  domain : String
  host : String
  type : Option RecordType
  line : Option String
  isOpen : Bool
  deriving DecidableEq, Repr

namespace StoredRecord

/-- The names of the members. -/
def memberNames : List String :=
  ["recordId", "domainName", "rr", "recordType", "value", "ttl", "line", "weight", "status",
    "remark", "priority", "locked"]

/-- A record as JSON. -/
def toJson (r : StoredRecord) : Json :=
  .object [("recordId", .text r.id), ("domainName", .text r.domain), ("rr", .text r.host),
    ("recordType", r.type.toJson), ("value", .text r.value), ("ttl", .ofUInt32 r.ttl),
    ("line", .text r.line), ("weight", .ofOption .ofUInt32 r.weight),
    ("status", r.status.toJson), ("remark", .ofOption .text r.remark),
    ("priority", .ofOption .ofUInt16 r.priority), ("locked", .bool r.locked)]

/-- Read a record. -/
def ofJson? (j : Json) : Option StoredRecord := do
  let m ← j.members? memberNames false
  some {
    id := ← m.required "recordId" Json.asText?
    domain := ← m.required "domainName" Json.asText?
    host := ← m.required "rr" Json.asText?
    type := ← m.required "recordType" (RecordType.ofJson? Json.isNull)
    value := ← m.required "value" Json.asText?
    ttl := ← m.required "ttl" Json.asUInt32?
    line := ← m.required "line" Json.asText?
    weight := ← m.optional "weight" Json.asUInt32?
    status := ← m.required "status" (Switch.ofJson? Json.isNull)
    remark := ← m.optional "remark" Json.asText?
    priority := ← m.optional "priority" Json.asUInt16?
    locked := ← m.required "locked" Json.asBool? }

end StoredRecord

namespace DomainSummary

/-- A zone as JSON. -/
def toJson (d : DomainSummary) : Json :=
  .object [("domainId", .ofOption .text d.id), ("domainName", .text d.name),
    ("recordCount", .ofOption .ofUInt32 d.recordCount)]

/-- Read a zone. -/
def ofJson? (j : Json) : Option DomainSummary := do
  let m ← j.members? ["domainId", "domainName", "recordCount"] false
  some {
    id := ← m.optional "domainId" Json.asText?
    name := ← m.required "domainName" Json.asText?
    recordCount := ← m.optional "recordCount" Json.asUInt32? }

end DomainSummary

namespace WeightedHost

/-- The weighting of a host as JSON. -/
def toJson (h : WeightedHost) : Json :=
  .object [("subDomain", .text h.name), ("recordCount", .ofUInt32 h.recordCount),
    ("open", .bool h.isOpen), ("recordType", .ofOption .text h.type),
    ("line", .ofOption .text h.line)]

/-- Read the weighting of a host. -/
def ofJson? (j : Json) : Option WeightedHost := do
  let m ← j.members? ["subDomain", "recordCount", "open", "recordType", "line"] false
  some {
    name := ← m.required "subDomain" Json.asText?
    recordCount := ← m.required "recordCount" Json.asUInt32?
    isOpen := ← m.required "open" Json.asBool?
    type := ← m.optional "recordType" Json.asText?
    line := ← m.optional "line" Json.asText? }

end WeightedHost

namespace RecordQuery

/-- A query as JSON. -/
def toJson (q : RecordQuery) : Json :=
  .object [("rrKeyword", .ofOption .text q.hostKeyword),
    ("recordType", .ofOption RecordType.toJson q.type),
    ("valueKeyword", .ofOption .text q.valueKeyword)]

/-- Read a query. -/
def ofJson? (j : Json) : Option RecordQuery := do
  let m ← j.members? ["rrKeyword", "recordType", "valueKeyword"] false
  some {
    hostKeyword := ← m.optional "rrKeyword" Json.asText?
    type := ← m.optional "recordType" (RecordType.ofJson? Json.isNull)
    valueKeyword := ← m.optional "valueKeyword" Json.asText? }

end RecordQuery

namespace NewRecord

/-- A new record as JSON. -/
def toJson (r : NewRecord) : Json :=
  .object [("domainName", .text r.domain), ("rr", .text r.host),
    ("recordType", r.type.toJson), ("value", .text r.value), ("ttl", .ofUInt32 r.ttl),
    ("line", .text r.line), ("priority", .ofOption .ofUInt16 r.priority)]

/-- Read a new record. -/
def ofJson? (j : Json) : Option NewRecord := do
  let m ← j.members?
    ["domainName", "rr", "recordType", "value", "ttl", "line", "priority"] false
  some {
    domain := ← m.required "domainName" Json.asText?
    host := ← m.required "rr" Json.asText?
    type := ← m.required "recordType" (RecordType.ofJson? Json.isNull)
    value := ← m.required "value" Json.asText?
    ttl := ← m.required "ttl" Json.asUInt32?
    line := ← m.required "line" Json.asText?
    priority := ← m.optional "priority" Json.asUInt16? }

end NewRecord

namespace RecordChange

/-- A change as JSON. -/
def toJson (r : RecordChange) : Json :=
  .object [("recordId", .text r.id), ("rr", .text r.host), ("recordType", r.type.toJson),
    ("value", .text r.value), ("ttl", .ofUInt32 r.ttl), ("line", .text r.line),
    ("priority", .ofOption .ofUInt16 r.priority)]

/-- Read a change. -/
def ofJson? (j : Json) : Option RecordChange := do
  let m ← j.members?
    ["recordId", "rr", "recordType", "value", "ttl", "line", "priority"] false
  some {
    id := ← m.required "recordId" Json.asText?
    host := ← m.required "rr" Json.asText?
    type := ← m.required "recordType" (RecordType.ofJson? Json.isNull)
    value := ← m.required "value" Json.asText?
    ttl := ← m.required "ttl" Json.asUInt32?
    line := ← m.required "line" Json.asText?
    priority := ← m.optional "priority" Json.asUInt16? }

end RecordChange

namespace WeightingRequest

/-- A weighting request as JSON. -/
def toJson (r : WeightingRequest) : Json :=
  .object [("domainName", .text r.domain), ("rr", .text r.host),
    ("recordType", .ofOption RecordType.toJson r.type), ("line", .ofOption .text r.line),
    ("open", .bool r.isOpen)]

/-- Read a weighting request. -/
def ofJson? (j : Json) : Option WeightingRequest := do
  let m ← j.members? ["domainName", "rr", "recordType", "line", "open"] false
  some {
    domain := ← m.required "domainName" Json.asText?
    host := ← m.required "rr" Json.asText?
    type := ← m.optional "recordType" (RecordType.ofJson? Json.isNull)
    line := ← m.optional "line" Json.asText?
    isOpen := ← m.required "open" Json.asBool? }

end WeightingRequest

end WeightedDns
