import WeightedDns.Lifecycle.Error
import WeightedDns.Remote.Walk

/-!
# Steps of the lifecycle

The operations on a record set are dialogues put together from these steps. Each makes the calls
for one purpose and says in its error what that was.
-/

namespace WeightedDns.Lifecycle

/-- An operation on a record set. -/
abbrev Operation (α : Type) : Type := Dialogue LifecycleError α

/-- Make a call for a purpose. -/
def attempt (purpose : Attempt) (c : Call) : Operation c.Reply :=
  (Dialogue.call c).mapError (.remote purpose)

/-- The configuration itself, unless it breaks a rule. -/
def accept (s : RecordSet) : Operation Unit :=
  match s.fault? with
  | some fault => .fail (.refused (.fault fault))
  | none => pure ()

/-- The resource ID of a list of record IDs. -/
def resourceId (ids : List String) : Operation ResourceId :=
  match ResourceId.new? ids with
  | some id => pure id
  | none => .fail (.invalidResourceId (ResourceId.join ids))

/-- The full name of the host of a set. -/
def setName (s : RecordSet) : String := fullName s.host s.domain

/-- Whether a stored record carries host, type, value, time to live and line of an entry, and the
priority if one is configured. -/
def coreMatches (stored : StoredRecord) (s : RecordSet) (e : Entry) : Bool :=
  Text.sameLetters stored.host s.host && stored.type == s.type && stored.value == e.value &&
    stored.ttl == e.ttl && stored.line == s.line &&
    (s.priority.isNone || stored.priority == s.priority)

/-- The listed records of the host and type of a set. Listing by keyword finds more than those. -/
def listed (s : RecordSet) : Operation (List StoredRecord) := do
  let records ← (Remote.allRecords s.domain ⟨some s.host, some s.type, none⟩).mapError
    (.remote (.listRecords s.domain))
  pure (records.filter fun r => Text.sameLetters r.host s.host && r.type == s.type)

/-- Add the record of an entry. -/
def add (s : RecordSet) (e : Entry) : Operation String :=
  attempt (.createRecord (setName s) e.value)
    (.addRecord ⟨s.domain, s.host, s.type, e.value, e.ttl, s.line, s.priority⟩)

/-- Give a record host, type, value, time to live, line and priority of an entry. -/
def overwrite (s : RecordSet) (e : Entry) (id : String) : Operation Unit :=
  attempt (.changeRecord id)
    (.changeRecord ⟨id, s.host, s.type, e.value, e.ttl, s.line, s.priority⟩)

/-- Set the weight of a record. -/
def setWeight (id : String) (weight : UInt32) : Operation Unit :=
  attempt (.setWeight id) (.setWeight id weight)

/-- Set the remark of a record. -/
def setRemark (id remark : String) : Operation Unit :=
  attempt (.setRemark id) (.setRemark id remark)

/-- Set the status of a record. -/
def setStatus (id : String) (status : Switch) : Operation Unit :=
  attempt (.setStatus id) (.setStatus id status)

/-- Switch the weighting of the group of a set. -/
def setWeighting (s : RecordSet) (position : Switch) : Operation Unit :=
  attempt (.setWeighting (setName s))
    (.setWeighting ⟨s.domain, s.host, some s.type, some s.line, position.isOn⟩)

/-- Do something with a value if there is one. -/
def whenSome (a : Option α) (f : α → Operation Unit) : Operation Unit :=
  match a with
  | some a => f a
  | none => pure ()

/-- Remark and status as a record carries them. -/
structure Extras where
  remark : String
  status : Switch

/-- What a record carries that has just been added. -/
def Extras.fresh : Extras := ⟨"", .enabled⟩

/-- What a stored record carries. -/
def Extras.of (r : StoredRecord) : Extras := ⟨r.remark.getD "", r.status⟩

/-- Give a record the remark and status of an entry, where they differ from what it carries. -/
def applyExtras (id : String) (e : Entry) (carried : Extras) : Operation Unit := do
  if e.remarkText != carried.remark then setRemark id e.remarkText
  if e.status != carried.status then setStatus id e.status

/-- The record of an entry: the first known one of the same value, changed where it does not
match, or else a new one. -/
def ensure (s : RecordSet) (known : List StoredRecord) (e : Entry) :
    Operation (String × Extras) :=
  match known.find? fun r => r.value == e.value with
  | some found => do
    if !coreMatches found s e then overwrite s e found.id
    pure (found.id, .of found)
  | none => do
    let id ← add s e
    pure (id, .fresh)

/-- Delete a record; one that is gone already counts as deleted. -/
def deleteOne (id : String) : Operation Unit := do
  match ← Dialogue.answerOf (.deleteRecord id) with
  | .ok _ => pure ()
  | .error e => if e.cause.isNotFound then pure () else .fail (.remote (.deleteRecord id) e)

/-- Fetch a record, none if it is gone. -/
def fetch? (id : String) : Operation (Option StoredRecord) := do
  match ← Dialogue.answerOf (.describeRecord id) with
  | .ok r => pure (some r)
  | .error e => if e.cause.isNotFound then pure none else .fail (.remote (.readRecord id) e)

end WeightedDns.Lifecycle
