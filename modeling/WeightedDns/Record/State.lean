import WeightedDns.Record.Codec
import WeightedDns.Record.ResourceId

/-!
# Tracked states

What is known of a set that exists at the service: the IDs of its records and its configuration,
entry by entry. This is what commands print and read back.
-/

namespace WeightedDns

/-- A record set as it exists, with the IDs of its records. -/
structure TrackedSet where
  id : ResourceId
  config : RecordSet
  deriving DecidableEq, Repr

namespace TrackedSet

/-- A tracked set as JSON. -/
def toJson (t : TrackedSet) : Json :=
  .object [("id", t.id.toJson), ("config", t.config.toJson)]

/-- Read a tracked set. Other members are passed over. -/
def ofJson? (j : Json) : Option TrackedSet := do
  let m ← j.members? ["id", "config"] false
  some {
    id := ← m.required "id" ResourceId.ofJson?
    config := ← m.required "config" (RecordSet.ofJson? Json.isNull) }

end TrackedSet

end WeightedDns
