import WeightedDns.Record.Set

/-!
# Record sets as JSON

A record set and its entries are closed records: no other member may stand beside theirs. The
line, the weighting and the entries have defaults; priority and remark are left out where they
are missing.
-/

namespace WeightedDns

namespace Entry

/-- The names of the members. -/
def memberNames : List String := ["value", "ttl", "weight", "status", "remark"]

/-- An entry as JSON. -/
def toJson (e : Entry) : Json :=
  .object ([("value", .text e.value), ("ttl", Json.ofUInt32 e.ttl),
    ("weight", Json.ofUInt32 e.weight), ("status", e.status.toJson)] ++
    Json.optionalMember "remark" .text e.remark)

/-- Read an entry; `payload` judges the value under a name that is a key. -/
def ofJson? (payload : Json → Bool) (j : Json) : Option Entry := do
  let m ← j.members? memberNames true
  some {
    value := ← m.required "value" Json.asText?
    ttl := ← m.required "ttl" Json.asUInt32?
    weight := ← m.required "weight" Json.asUInt32?
    status := ← m.required "status" (Switch.ofJson? payload)
    remark := ← m.withDefault "remark" (Json.asOptional? Json.asText?) none }

end Entry

namespace RecordSet

/-- The names of the members. -/
def memberNames : List String :=
  ["domain_name", "rr", "type", "line", "priority", "wrr_status", "records"]

/-- A record set as JSON. -/
def toJson (s : RecordSet) : Json :=
  .object ([("domain_name", .text s.domain), ("rr", .text s.host), ("type", s.type.toJson),
    ("line", .text s.line)] ++ Json.optionalMember "priority" Json.ofUInt16 s.priority ++
    [("wrr_status", s.weighting.toJson), ("records", Json.ofList Entry.toJson s.entries)])

/-- Read a record set; `payload` judges the value under a name that is a key. -/
def ofJson? (payload : Json → Bool) (j : Json) : Option RecordSet := do
  let m ← j.members? memberNames true
  some {
    domain := ← m.required "domain_name" Json.asText?
    host := ← m.required "rr" Json.asText?
    type := ← m.required "type" (RecordType.ofJson? payload)
    line := ← m.withDefault "line" Json.asText? defaultLine
    priority := ← m.withDefault "priority" (Json.asOptional? Json.asUInt16?) none
    weighting := ← m.withDefault "wrr_status" (Switch.ofJson? payload) .enabled
    entries := ← m.withDefault "records" (Json.asList? (Entry.ofJson? payload)) [] }

end RecordSet

end WeightedDns
