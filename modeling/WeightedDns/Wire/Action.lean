import WeightedDns.Record.Set
import WeightedDns.Remote.Call
import WeightedDns.Wire.Failure

/-!
# Actions on the wire

Every call has a name on the wire, parameters, a context for its errors, and a form that its reply
has to have. Records of types that no weighted set can have are left out of listings; asked for by
ID they are an error.
-/

namespace WeightedDns

open Wire (Context)

/-- The greatest page that the service delivers. -/
def Wire.maxPageSize : UInt32 := 500

namespace Call

/-- The name of the action. -/
def actionName : Call → String
  | .describeDomain _ => "DescribeDomainInfo"
  | .listRecords _ _ _ => "DescribeDomainRecords"
  | .describeRecord _ => "DescribeDomainRecordInfo"
  | .addRecord _ => "AddDomainRecord"
  | .changeRecord _ => "UpdateDomainRecord"
  | .deleteRecord _ => "DeleteDomainRecord"
  | .setWeight _ _ => "UpdateDNSSLBWeight"
  | .setRemark _ _ => "UpdateDomainRecordRemark"
  | .setStatus _ _ => "SetDomainRecordStatus"
  | .setWeighting _ => "SetDNSSLBStatus"
  | .listWeightedHosts _ _ _ => "DescribeDNSSLBSubDomains"

/-- The parameters that ask for a page. -/
def pageParameters (request : PageRequest) : List (String × Json) :=
  let r := request.clamped Wire.maxPageSize
  [("PageNumber", .ofUInt32 r.page), ("PageSize", .ofUInt32 r.size)]

/-- A parameter that is left out where it is missing or empty. -/
def keyword (key : String) (value : Option String) : List (String × Json) :=
  Json.optionalMember key .text (value.filter (· != ""))

/-- The parameters of a call. -/
def parameters : Call → Json
  | .describeDomain domain => .object [("DomainName", .text domain)]
  | .listRecords domain query request =>
    .object ([("DomainName", .text domain)] ++ pageParameters request ++
      keyword "RRKeyWord" query.hostKeyword ++
      Json.optionalMember "Type" RecordType.toJson query.type ++
      keyword "ValueKeyWord" query.valueKeyword)
  | .describeRecord id | .deleteRecord id => .object [("RecordId", .text id)]
  | .addRecord r =>
    .object ([("DomainName", .text r.domain), ("RR", .text r.host), ("Type", r.type.toJson),
      ("Value", .text r.value), ("TTL", .ofUInt32 r.ttl), ("Line", .text r.line)] ++
      Json.optionalMember "Priority" .ofUInt16 r.priority)
  | .changeRecord r =>
    .object ([("RecordId", .text r.id), ("RR", .text r.host), ("Type", r.type.toJson),
      ("Value", .text r.value), ("TTL", .ofUInt32 r.ttl), ("Line", .text r.line)] ++
      Json.optionalMember "Priority" .ofUInt16 r.priority)
  | .setWeight id weight => .object [("RecordId", .text id), ("Weight", .ofUInt32 weight)]
  | .setRemark id remark => .object [("RecordId", .text id), ("Remark", .text remark)]
  | .setStatus id status =>
    .object [("RecordId", .text id), ("Status", .text status.parameter)]
  | .setWeighting r =>
    .object ([("DomainName", .text r.domain), ("SubDomain", .text (fullName r.host r.domain)),
      ("Open", .bool r.isOpen)] ++ Json.optionalMember "Type" RecordType.toJson r.type ++
      Json.optionalMember "Line" .text r.line)
  | .listWeightedHosts domain host request =>
    .object ([("DomainName", .text domain)] ++ pageParameters request ++ keyword "Rr" host)

/-- What the errors of a call can name. -/
def context : Call → Context
  | .describeDomain domain | .listRecords domain _ _ | .listWeightedHosts domain _ _ =>
    .ofDomain domain
  | .addRecord r => .ofHost r.domain r.host
  | .setWeighting r => .ofHost r.domain r.host
  | .changeRecord r => .ofNamedRecord r.id r.host
  | .describeRecord id | .deleteRecord id | .setWeight id _ | .setRemark id _
  | .setStatus id _ => .ofRecord id

end Call

namespace Wire

/-- A record as the service reports it: type and status are any text. -/
structure RawRecord where
  id : String
  domain : Option String
  host : String
  type : String
  value : String
  ttl : UInt32
  line : Option String
  weight : Option UInt32
  status : Option String
  remark : Option String
  priority : Option UInt16
  locked : Bool

namespace RawRecord

/-- The names of the members. -/
def memberNames : List String :=
  ["RecordId", "DomainName", "RR", "Type", "Value", "TTL", "Line", "Weight", "Status", "Remark",
    "Priority", "Locked"]

/-- Read a record. -/
def ofJson? (j : Json) : Option RawRecord := do
  let m ← j.members? memberNames false
  some {
    id := ← m.required "RecordId" Json.asText?
    domain := ← m.withDefault "DomainName" (Json.asOptional? Json.asText?) none
    host := ← m.required "RR" Json.asText?
    type := ← m.required "Type" Json.asText?
    value := ← m.required "Value" Json.asText?
    ttl := ← m.required "TTL" Json.asUInt32?
    line := ← m.withDefault "Line" (Json.asOptional? Json.asText?) none
    weight := ← m.optional "Weight" Json.asUInt32?
    status := ← m.withDefault "Status" (Json.asOptional? Json.asText?) none
    remark := ← m.optional "Remark" Json.asText?
    priority := ← m.optional "Priority" Json.asUInt16?
    locked := ← m.withDefault "Locked" Json.asBool? false }

/-- The status that a text names, on where it names none. -/
def statusOf (text : Option String) : Switch :=
  match text.map Switch.parse with
  | some (.ok s) => s
  | _ => .enabled

/-- The record that a report stands for, in a zone unless it names one; none if its type is not
supported. -/
def stored? (r : RawRecord) (zone : String) : Option StoredRecord :=
  match RecordType.parse r.type with
  | .error _ => none
  | .ok type => some {
      id := r.id, domain := r.domain.getD zone, host := r.host, type, value := r.value,
      ttl := r.ttl, line := r.line.getD RecordSet.defaultLine, weight := r.weight,
      status := statusOf r.status, remark := r.remark.filter (· != ""),
      priority := r.priority, locked := r.locked }

end RawRecord

/-- Read the total number of items and the items of a listing. Both may be missing, and the items
stand in a record of their own. -/
def readListing? (outer inner : String) (read : Json → Option α) (j : Json) :
    Option (UInt32 × List α) := do
  let m ← j.members? [outer, "TotalCount"] false
  let items ← m.optional outer fun k => do
    let n ← k.members? [inner] false
    n.optional inner (Json.asList? read)
  let total ← m.optional "TotalCount" Json.asUInt32?
  some (total.getD 0, (items.bind id).getD [])

/-- Read the weighting of a host. -/
def readHost? (j : Json) : Option WeightedHost := do
  let m ← j.members? ["SubDomain", "RecordCount", "Open", "Type", "Line"] false
  some {
    name := ← m.required "SubDomain" Json.asText?
    recordCount := ← m.withDefault "RecordCount" Json.asUInt32? 0
    isOpen := ← m.withDefault "Open" Json.asBool? false
    type := ← m.optional "Type" Json.asText?
    line := ← m.optional "Line" Json.asText? }

/-- Read a zone. -/
def readDomain? (j : Json) : Option DomainSummary := do
  let m ← j.members? ["DomainId", "DomainName", "RecordCount"] false
  some {
    id := ← m.optional "DomainId" Json.asText?
    name := ← m.required "DomainName" Json.asText?
    recordCount := ← m.optional "RecordCount" Json.asUInt32? }

/-- Read a reply that only confirms a request. -/
def readConfirmation? (j : Json) : Option Unit := do
  let m ← j.members? ["RequestId"] false
  let _ ← m.optional "RequestId" Json.asText?
  some ()

end Wire

namespace Call

/-- The cause of a reply that does not have its form. -/
def malformed : Cause := .malformedReply "the body has not the form of the reply"

/-- Read the reply to a call from its body. -/
def readReply : (c : Call) → Json → Except Cause c.Reply
  | .describeDomain _, j => orMalformed (Wire.readDomain? j)
  | .listRecords domain _ request, j => do
    let (total, raw) ← orMalformed
      (Wire.readListing? "DomainRecords" "Record" Wire.RawRecord.ofJson? j)
    pure (.ofItems (raw.filterMap (·.stored? domain)) (request.clamped Wire.maxPageSize) total)
  | .describeRecord _, j => do
    let raw ← orMalformed (Wire.RawRecord.ofJson? j)
    match raw.stored? "" with
    | some r => pure r
    | none => throw (.unsupportedType raw.type)
  | .addRecord _, j => do
    let m ← orMalformed (j.members? ["RecordId"] false)
    orMalformed (m.required "RecordId" Json.asText?)
  | .listWeightedHosts _ _ request, j => do
    let (total, hosts) ← orMalformed
      (Wire.readListing? "SlbSubDomains" "SlbSubDomain" Wire.readHost? j)
    pure (.ofItems hosts (request.clamped Wire.maxPageSize) total)
  | .changeRecord _, j | .deleteRecord _, j | .setWeight _ _, j | .setRemark _ _, j
  | .setStatus _ _, j | .setWeighting _, j => orMalformed (Wire.readConfirmation? j)
where
  /-- What was read, or the cause that it could not be. -/
  orMalformed {α : Type} : Option α → Except Cause α
    | some a => .ok a
    | none => .error malformed

end Call

end WeightedDns
