import WeightedDns.Record.State
import WeightedDns.Text.Letters

/-!
# Update plans

A plan lists what has to be done at the service to turn a tracked set into another configuration,
entry by entry in the order of the list: entries of one index are the same record, edited. Weights
are planned only where weighting is to be on, and a weight of zero never. A set that moves to
another host, type or line gets its weighting and all its weights anew.
-/

namespace WeightedDns

/-- Work on one record of a set. -/
inductive Action where
  /-- Keep the record and change what differs. -/
  | reconcile (index : Nat) (recordId : String) (checkCore : Bool) (weight : Option UInt32)
      (remark : Option String) (status : Option Switch)
  /-- Create the record of an index that the tracked set does not have. -/
  | create (index : Nat)
  /-- Delete the record of an index that is no longer configured. -/
  | delete (index : Nat) (recordId : String)
  deriving DecidableEq, Repr

namespace Action

/-- The index of the entry that the work is on. -/
def index : Action → Nat
  | .reconcile i _ _ _ _ _ => i
  | .create i => i
  | .delete i _ => i

/-- Work on a record as JSON. -/
def toJson : Action → Json
  | .reconcile i id checkCore weight remark status =>
    .object ([("action", .text "reconcile"), ("index", .ofNat i), ("record_id", .text id),
      ("check_core", .bool checkCore)] ++ Json.optionalMember "weight" .ofUInt32 weight ++
      Json.optionalMember "remark" .text remark ++
      Json.optionalMember "status" Switch.toJson status)
  | .create i => .object [("action", .text "create"), ("index", .ofNat i)]
  | .delete i id =>
    .object [("action", .text "delete"), ("index", .ofNat i), ("record_id", .text id)]

end Action

/-- The work that turns a tracked set into another configuration. -/
structure Plan where
  actions : List Action
  /-- What the weighting is to be switched to, once all actions are done. -/
  weighting : Option Switch
  deriving DecidableEq, Repr

/-- Why no plan can be made. -/
inductive PlanError where
  /-- A set cannot move to another zone. -/
  | domainChange (current desired : String)
  /-- The tracked set has not one ID for each entry. -/
  | countMismatch (ids entries : Nat)
  deriving DecidableEq, Repr

namespace Plan

/-- Whether there is nothing to do. -/
def isEmpty (p : Plan) : Bool := p.actions.isEmpty && p.weighting.isNone

/-- Whether weights have to wait until weighting is switched on. -/
def defersWeights (p : Plan) : Bool := p.weighting == some .enabled

/-- A plan as JSON. -/
def toJson (p : Plan) : Json :=
  .object ([("actions", .ofList Action.toJson p.actions)] ++
    Json.optionalMember "wrr_status" Switch.toJson p.weighting ++
    [("defer_weights", .bool p.defersWeights)])

/-- Whether a set moves to another group of weighted records: another host, type or line. -/
def movesGroup (old new : RecordSet) : Bool :=
  !Text.sameLetters old.host new.host || old.type != new.type || old.line != new.line

/-- The weighting to be switched to: the new one if it changes or the set moves. -/
def weightingChange (old new : RecordSet) : Option Switch :=
  if movesGroup old new || old.weighting != new.weighting then some new.weighting else none

/-- Whether what the service stores of a record in the first place may be out of date. -/
def coreChanges (old new : RecordSet) (before after : Entry) : Bool :=
  old.sharedDiffers new || before.value != after.value || before.ttl != after.ttl

/-- The weight to be set for an entry that is kept. -/
def weightChange (old new : RecordSet) (before after : Entry) : Option UInt32 :=
  if new.weighting.isOn && after.weight != 0
      && (movesGroup old new || after.weight != before.weight) then
    some after.weight
  else none

/-- The remark to be set for an entry that is kept; empty takes it away. -/
def remarkChange (before after : Entry) : Option String :=
  if after.remarkText != before.remarkText then some after.remarkText else none

/-- The status to be set for an entry that is kept. -/
def statusChange (before after : Entry) : Option Switch :=
  if after.status != before.status then some after.status else none

/-- The work on an entry that is kept, if there is any. -/
def reconcile (old new : RecordSet) (index : Nat) (recordId : String) (before after : Entry) :
    List Action :=
  let core := coreChanges old new before after
  let weight := weightChange old new before after
  let remark := remarkChange before after
  let status := statusChange before after
  if core || weight.isSome || remark.isSome || status.isSome then
    [.reconcile index recordId core weight remark status]
  else []

/-- The work on the entries from `index` on that have no record yet. -/
def createsFrom (index : Nat) : List Entry → List Action
  | [] => []
  | _ :: after => .create index :: createsFrom (index + 1) after

/-- The work on the entries from `index` on: the old ones, each with the ID of its record, beside
the new ones. -/
def actionsFrom (old new : RecordSet) (index : Nat) :
    List (Entry × String) → List Entry → List Action
  | [], after => createsFrom index after
  | (_, id) :: before, [] => .delete index id :: actionsFrom old new (index + 1) before []
  | (b, id) :: before, a :: after =>
    reconcile old new index id b a ++ actionsFrom old new (index + 1) before after

/-- The plan for turning a tracked set into a configuration of the same zone. Nothing is done to
entries when neither they nor what they share changes. -/
def between (prior : TrackedSet) (desired : RecordSet) : Except PlanError Plan :=
  let old := prior.config
  if old.domain ≠ desired.domain then .error (.domainChange old.domain desired.domain)
  else if prior.id.size ≠ old.entries.length then
    .error (.countMismatch prior.id.size old.entries.length)
  else
    let actions :=
      if !old.sharedDiffers desired && old.entries == desired.entries then []
      else actionsFrom old desired 0 (old.entries.zip prior.id.ids) desired.entries
    .ok ⟨actions, weightingChange old desired⟩

end Plan

end WeightedDns
