import WeightedDns.Remote.Error
import WeightedDns.Remote.Page
import WeightedDns.Remote.Record

/-!
# Actions of the service

A `Call` is one action with its parameters, and `Call.Reply` the type of what it answers. A
`Remote` is anything that answers calls, from a state that may change with every call: the
service behind its wire protocol, or a zone held in memory.
-/

namespace WeightedDns

/-- One action of the service. -/
inductive Call where
  | describeDomain (domain : String)
  | listRecords (domain : String) (query : RecordQuery) (page : PageRequest)
  | describeRecord (id : String)
  | addRecord (record : NewRecord)
  | changeRecord (change : RecordChange)
  | deleteRecord (id : String)
  | setWeight (id : String) (weight : UInt32)
  /-- An empty remark takes the remark away. -/
  | setRemark (id : String) (remark : String)
  | setStatus (id : String) (status : Switch)
  | setWeighting (request : WeightingRequest)
  | listWeightedHosts (domain : String) (host : Option String) (page : PageRequest)
  deriving DecidableEq, Repr

namespace Call

/-- What an action answers when it succeeds; the ID of the record when one is added. -/
@[reducible] def Reply : Call → Type
  | .describeDomain _ => DomainSummary
  | .listRecords _ _ _ => Page StoredRecord
  | .describeRecord _ => StoredRecord
  | .addRecord _ => String
  | .listWeightedHosts _ _ _ => Page WeightedHost
  | _ => Unit

/-- Whether an action can change what the service stores. -/
def writes : Call → Bool
  | .describeDomain _ | .listRecords _ _ _ | .describeRecord _ | .listWeightedHosts _ _ _ => false
  | _ => true

/-- What a call answers: its reply, or an error. -/
abbrev Answer (c : Call) : Type := Except ServiceError c.Reply

end Call

/-- Something that answers calls. -/
structure Remote (σ : Type) where
  /-- The name of the service. -/
  provider : String
  /-- The answer to a call in a state, and the state afterwards. -/
  answer : (c : Call) → σ → c.Answer × σ

end WeightedDns
