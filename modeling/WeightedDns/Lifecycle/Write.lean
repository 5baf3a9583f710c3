import WeightedDns.Lifecycle.Read

/-!
# Creating, updating and deleting record sets

The order of calls matters: the records of a set exist before its weighting is switched on, and
weights are set only afterwards. A record that exists with the value of an entry is taken over
and not added a second time. Nothing is undone when a call fails, and every operation that
succeeds ends by reading the set back.
-/

namespace WeightedDns.Lifecycle

/-! ## Creating -/

/-- The records of entries, in their order. -/
def ensureAll (s : RecordSet) (known : List StoredRecord) :
    List Entry → Operation (List (String × Extras))
  | [] => pure []
  | e :: rest => do
    let first ← ensure s known e
    let others ← ensureAll s known rest
    pure (first :: others)

/-- Set the weights of entries, except zero. -/
def weighAll : List (String × Entry) → Operation Unit
  | [] => pure ()
  | (id, e) :: rest => do
    if e.weight != 0 then setWeight id e.weight
    weighAll rest

/-- Give records the remarks and status of their entries. -/
def applyAllExtras : List ((String × Extras) × Entry) → Operation Unit
  | [] => pure ()
  | ((id, carried), e) :: rest => do
    applyExtras id e carried
    applyAllExtras rest

/-- Create a record set. With `preflight` the zone is looked up first. -/
def create (preflight : Bool) (s : RecordSet) : Operation TrackedSet := do
  accept s
  if preflight then
    let _ ← attempt (.describeDomain s.domain) (.describeDomain s.domain)
  let known ← listed s
  let records ← ensureAll s known s.entries
  let ids := records.map (·.1)
  if s.weighting.isOn then
    setWeighting s .enabled
    weighAll (ids.zip s.entries)
  applyAllExtras (records.zip s.entries)
  let id ← resourceId ids
  readBack id s

/-! ## Updating -/

/-- The plan for turning a tracked set into another configuration. -/
def plan (prior : TrackedSet) (desired : RecordSet) : Operation Plan := do
  accept desired
  Dialogue.ofExcept ((Plan.between prior desired).mapError .ofPlanError)

/-- How far an update has come. -/
structure Progress where
  /-- The IDs of the records, in the order of the entries. -/
  ids : List String
  /-- Weights that wait until weighting is on. -/
  pending : List (String × UInt32)
  /-- The listed records of the desired host and type, once they have been asked for. -/
  known : Option (List StoredRecord)

/-- Set a weight now, or keep it until weighting is on. -/
def weigh (deferred : Bool) (id : String) (weight : UInt32) (p : Progress) :
    Operation Progress := do
  if deferred then pure { p with pending := p.pending ++ [(id, weight)] }
  else
    setWeight id weight
    pure p

/-- The weight that a record needs which has just come to an entry. -/
def startingWeight (s : RecordSet) (e : Entry) : Option UInt32 :=
  if s.weighting.isOn && e.weight != 0 then some e.weight else none

/-- See to it that the record of an entry exists and, if asked for, matches it. The ID of a new
record if the old one is gone. -/
def reconcileCore (s : RecordSet) (e : Entry) (id : String) (checkCore : Bool) :
    Operation (Option String) := do
  match ← fetch? id with
  | some stored =>
    if checkCore && !coreMatches stored s e then overwrite s e id
    pure none
  | none =>
    let newId ← add s e
    pure (some newId)

/-- Do the planned work on an entry that is kept. A new record in place of one that is gone gets
everything that sets it apart from a fresh one. -/
def runReconcile (desired : RecordSet) (deferred : Bool) (e : Entry) (index : Nat) (id : String)
    (checkCore : Bool) (weight : Option UInt32) (remark : Option String)
    (status : Option Switch) (p : Progress) : Operation Progress := do
  let replaced ← reconcileCore desired e id checkCore
  let target := replaced.getD id
  let p := if replaced.isSome then { p with ids := p.ids.set index target } else p
  let weight := if replaced.isSome then startingWeight desired e else weight
  let remark :=
    if replaced.isSome then (if e.remarkText != "" then some e.remarkText else none) else remark
  let status :=
    if replaced.isSome then (if e.status != .enabled then some e.status else none) else status
  let p ←
    match weight with
    | some w => weigh deferred target w p
    | none => pure p
  whenSome remark (setRemark target)
  whenSome status (setStatus target)
  pure p

/-- Create or take over the record of a new entry. -/
def runCreate (desired : RecordSet) (deferred : Bool) (e : Entry) (p : Progress) :
    Operation Progress := do
  let known ←
    match p.known with
    | some known => pure known
    | none => listed desired
  let (id, carried) ← ensure desired known e
  let p := { p with known := some known }
  let p ←
    match startingWeight desired e with
    | some w => weigh deferred id w p
    | none => pure p
  applyExtras id e carried
  pure { p with ids := p.ids ++ [id] }

/-- Do one planned action. -/
def runAction (desired : RecordSet) (deferred : Bool) (p : Progress) :
    Action → Operation Progress
  | .reconcile index id checkCore weight remark status =>
    match desired.entries[index]? with
    | none => pure p
    | some e => runReconcile desired deferred e index id checkCore weight remark status p
  | .create index =>
    if p.ids.length ≠ index then .fail (.countMismatch p.ids.length index)
    else
      match desired.entries[index]? with
      | none => pure p
      | some e => runCreate desired deferred e p
  | .delete _ id => do
    deleteOne id
    pure p

/-- Do planned actions in their order. -/
def runActions (desired : RecordSet) (deferred : Bool) (p : Progress) :
    List Action → Operation Progress
  | [] => pure p
  | a :: rest => do
    let p ← runAction desired deferred p a
    runActions desired deferred p rest

/-- Set the weights that have waited. -/
def weighPending : List (String × UInt32) → Operation Unit
  | [] => pure ()
  | (id, weight) :: rest => do
    setWeight id weight
    weighPending rest

/-- Turn a tracked set into another configuration of the same zone. -/
def update (prior : TrackedSet) (desired : RecordSet) : Operation TrackedSet := do
  let plan ← plan prior desired
  if plan.isEmpty then readBack prior.id desired
  else
    let p ← runActions desired plan.defersWeights ⟨prior.id.ids, [], none⟩ plan.actions
    whenSome plan.weighting (setWeighting desired)
    weighPending p.pending
    let id ← resourceId (p.ids.take desired.entries.length)
    readBack id desired

/-! ## Deleting -/

/-- Delete records in order. -/
def deleteAll : List String → Operation Unit
  | [] => pure ()
  | id :: ids => do
    deleteOne id
    deleteAll ids

/-- Delete every record of a set; records that are gone already count as deleted. -/
def delete (id : ResourceId) : Operation Unit := deleteAll id.ids

end WeightedDns.Lifecycle
