import WeightedDns.Lifecycle.Step

/-!
# Reading record sets

`read?` fetches the records of a set one by one and puts the configuration together from them;
`takeOver` does so for a single record of a zone that is not tracked yet. What all records share
is taken from the first one. Fetching a record may leave out its weight, which is then taken from
the listing of the zone.
-/

namespace WeightedDns.Lifecycle

/-- Fetch records in order, leaving out those that are gone. -/
def fetchAll : List String → Operation (List StoredRecord)
  | [] => pure []
  | id :: ids => do
    let found ← fetch? id
    let rest ← fetchAll ids
    pure (found.toList ++ rest)

/-- A record with the weight that the listing has for it, if it has none itself. -/
def fillWeight (listing : List StoredRecord) (r : StoredRecord) : StoredRecord :=
  if r.weight.isNone then
    { r with weight := (listing.find? fun l => l.id == r.id).bind (·.weight) }
  else r

/-- Records with the weights that they miss filled in from the listing of their zone. -/
def completeWeights (domain host : String) (type : RecordType) (records : List StoredRecord) :
    Operation (List StoredRecord) := do
  if records.any (·.weight.isNone) then
    let listing ← (Remote.allRecords domain ⟨some host, some type, none⟩).mapError
      (.remote (.listRecords domain))
    pure (records.map (fillWeight listing))
  else pure records

/-- The weighting of a host: off where it is not listed. -/
def readWeighting (domain host : String) : Operation Switch := do
  let name := fullName host domain
  let found ← (Remote.weightedHost? domain host name).mapError (.remote (.readWeighting name))
  pure (found.elim .disabled fun h => .ofBool h.isOpen)

/-- The entry of a stored record. -/
def entryOf (r : StoredRecord) : Entry :=
  ⟨r.value, r.ttl, r.weight.getD 0, r.status, r.remark.filter (· != "")⟩

/-- The tracked set of records of a zone, what they share being taken from the first one. -/
def assemble (domain : String) (records : List StoredRecord) : Operation TrackedSet :=
  match records with
  | [] => .fail (.countMismatch 0 0)
  | first :: _ => do
    let complete ← completeWeights domain first.host first.type records
    let weighting ← readWeighting domain first.host
    let id ← resourceId (complete.map (·.id))
    pure ⟨id, {
      domain, host := first.host, type := first.type, line := first.line,
      priority := first.priority, weighting, entries := complete.map entryOf }⟩

/-- The set as it exists, without the records that are gone; none if none is left. -/
def read? (id : ResourceId) (domain : String) : Operation (Option TrackedSet) := do
  let records ← fetchAll id.ids
  if records.isEmpty then pure none
  else
    let state ← assemble domain records
    pure (some state)

/-- The set as it exists after a change, which has to cover every entry. -/
def readBack (id : ResourceId) (s : RecordSet) : Operation TrackedSet := do
  if id.size ≠ s.entries.length then .fail (.countMismatch id.size s.entries.length)
  else
    match ← read? id s.domain with
    | some state => pure state
    | none => .fail (.countMismatch 0 s.entries.length)

/-- Take over a record that exists, named by its zone and ID. A record that does not name its
zone is taken to be in the given one. -/
def takeOver (text : String) : Operation TrackedSet :=
  match ImportId.parse? text with
  | none => .fail (.invalidImportId text)
  | some id => do
    let record ← attempt (.readRecord id.recordId) (.describeRecord id.recordId)
    if record.domain != "" && !Text.sameLetters record.domain id.domain then
      .fail (.domainMismatch id.recordId id.domain record.domain)
    else assemble id.domain [record]

end WeightedDns.Lifecycle
