import WeightedDns.Record.Set
import WeightedDns.Remote.Call

/-!
# A zone in memory

`Zone.remote` answers calls from the records of one zone held in memory, with the rules that
matter to a weighted set: a record of the same host, type and value is refused, fetching a record
leaves out its weight, and a weight can be set only while weighting is on for the host. Writing
calls that succeed are kept in a journal. An action can be made to fail.
-/

namespace WeightedDns

/-- The kinds of actions. -/
inductive ActionKind where
  | describeDomain | listRecords | describeRecord | addRecord | changeRecord | deleteRecord
  | setWeight | setRemark | setStatus | setWeighting | listWeightedHosts
  deriving DecidableEq, Repr

/-- The kind of a call. -/
def Call.kind : Call → ActionKind
  | .describeDomain _ => .describeDomain
  | .listRecords _ _ _ => .listRecords
  | .describeRecord _ => .describeRecord
  | .addRecord _ => .addRecord
  | .changeRecord _ => .changeRecord
  | .deleteRecord _ => .deleteRecord
  | .setWeight _ _ => .setWeight
  | .setRemark _ _ => .setRemark
  | .setStatus _ _ => .setStatus
  | .setWeighting _ => .setWeighting
  | .listWeightedHosts _ _ _ => .listWeightedHosts

/-- A zone held in memory. -/
structure Zone where
  /-- The records, in the order in which they were added. -/
  records : List StoredRecord
  /-- Whether weighting is on, by the full name of the host; a host not listed has it off. -/
  weighting : List (String × Bool)
  /-- The writing calls that have succeeded. -/
  journal : List Call
  /-- The errors of actions that have been made to fail. -/
  failures : List (ActionKind × ServiceError)
  /-- The number that the next record gets as its ID. -/
  nextId : Nat

namespace Zone

/-- The name under which a zone in memory reports errors. -/
def provider : String := "mock"

/-- The name of the zone. -/
def domain : String := "example.com"

/-- A zone without records. -/
def empty : Zone := ⟨[], [], [], [], 1000⟩

/-- The record with an ID. -/
def record? (z : Zone) (id : String) : Option StoredRecord := z.records.find? (·.id == id)

/-- Whether weighting is on for the host with a full name. -/
def isOpen (z : Zone) (name : String) : Bool := (z.weighting.lookup name).getD false

/-- Put the switch of a host among those of others. -/
def setSwitch (name : String) (position : Bool) :
    List (String × Bool) → List (String × Bool)
  | [] => [(name, position)]
  | (n, p) :: rest =>
    if n = name then (name, position) :: rest else (n, p) :: setSwitch name position rest

/-- The first record with an ID changed, none if there is none. -/
def changeFirst? (id : String) (change : StoredRecord → StoredRecord) :
    List StoredRecord → Option (List StoredRecord)
  | [] => none
  | r :: rest =>
    if r.id = id then some (change r :: rest) else (changeFirst? id change rest).map (r :: ·)

/-- Add a record with the next number as its ID, weight one and nothing else set. -/
def store (z : Zone) (r : NewRecord) : Zone :=
  { z with
    records := z.records ++ [{
      id := toString z.nextId, domain := r.domain, host := r.host, type := r.type,
      value := r.value, ttl := r.ttl, line := r.line, weight := some 1, status := .enabled,
      remark := none, priority := r.priority, locked := false }]
    nextId := z.nextId + 1 }

/-- Put a record into the zone without a call. -/
def seed (z : Zone) (host : String) (type : RecordType) (value : String) (ttl : UInt32) : Zone :=
  z.store ⟨domain, host, type, value, ttl, RecordSet.defaultLine, none⟩

/-- Take a record out of the zone without a call. -/
def remove (z : Zone) (id : String) : Zone :=
  { z with records := z.records.filter (·.id != id) }

/-- Let an action fail from now on. -/
def fail (z : Zone) (kind : ActionKind) (e : ServiceError) : Zone :=
  { z with failures := (kind, e) :: z.failures }

/-- Note a writing call that has succeeded. -/
def note (z : Zone) (c : Call) : Zone := { z with journal := z.journal ++ [c] }

/-- An error of the zone. -/
def error (cause : Cause) : Except ServiceError α := .error ⟨provider, cause⟩

/-- The error for a record that is not there. -/
def missing (id : String) : Cause :=
  .recordNotFound id (some "The specified domain record does not exist.")

/-- Whether a query of a zone selects a record. -/
def selects (domain : String) (q : RecordQuery) (r : StoredRecord) : Bool :=
  r.domain == domain && q.hostKeyword.all (Text.holds r.host ·) && q.type.all (r.type == ·) &&
    q.valueKeyword.all (Text.holds r.value ·)

/-- The number of items as far as 32 bits can hold it. -/
def count32 (n : Nat) : UInt32 := UInt32.ofNat (min n (UInt32.size - 1))

/-- A page of items. The number of items before it wraps around at 32 bits, where a build that
checks for overflow stops. -/
def pageOf (items : List α) (request : PageRequest) : Page α :=
  let start := (max request.page 1 - 1) * request.size
  Page.ofItems ((items.drop start.toNat).take request.size.toNat) request (count32 items.length)

/-- The weighting of the hosts that are listed, of one host or of all. -/
def weightedHosts (z : Zone) (domain : String) (host : Option String) : List WeightedHost :=
  (z.weighting.filter fun s => host.all fun h => s.1 == fullName h domain).map fun s =>
    { name := s.1
      recordCount := count32 (z.records.countP fun r => fullName r.host r.domain == s.1)
      isOpen := s.2, type := none, line := none }

/-- Change the record with an ID and note the call. -/
def change (z : Zone) (id : String) (f : StoredRecord → StoredRecord) (c : Call) :
    Except ServiceError Unit × Zone :=
  match changeFirst? id f z.records with
  | some records => (.ok (), { z with records }.note c)
  | none => (error (missing id), z)

/-- The answer to a call that has not been made to fail. -/
def perform (z : Zone) : (c : Call) → c.Answer × Zone
  | .describeDomain name =>
    if name = domain then (.ok ⟨some "dom-1", domain, none⟩, z)
    else (error (.domainNotFound name none), z)
  | .listRecords name query request =>
    (.ok (pageOf (z.records.filter (selects name query)) request), z)
  | .describeRecord id =>
    match z.record? id with
    | some r => (.ok { r with weight := none }, z)
    | none => (error (missing id), z)
  | .addRecord r =>
    if z.records.any fun s => s.host == r.host && s.type == r.type && s.value == r.value then
      (error (.recordExists r.host none), z)
    else (.ok (toString z.nextId), (z.store r).note (.addRecord r))
  | .changeRecord r =>
    z.change r.id (fun s => { s with
      host := r.host, type := r.type, value := r.value, ttl := r.ttl, line := r.line,
      priority := r.priority }) (.changeRecord r)
  | .deleteRecord id =>
    if (z.record? id).isSome then (.ok (), (z.remove id).note (.deleteRecord id))
    else (error (missing id), z)
  | .setWeight id weight =>
    match z.record? id with
    | none => (error (missing id), z)
    | some r =>
      let name := fullName r.host r.domain
      if z.isOpen name then
        z.change id (fun s => { s with weight := some weight }) (.setWeight id weight)
      else (error (.invalidParameter "Weight" s!"WRR is not enabled for {name}"), z)
  | .setRemark id remark =>
    z.change id (fun s => { s with remark := if remark = "" then none else some remark })
      (.setRemark id remark)
  | .setStatus id status => z.change id (fun s => { s with status }) (.setStatus id status)
  | .setWeighting r =>
    let name := fullName r.host r.domain
    (.ok (), { z with weighting := setSwitch name r.isOpen z.weighting }.note (.setWeighting r))
  | .listWeightedHosts name host request =>
    let hosts := z.weightedHosts name host
    (.ok (.ofItems hosts request (count32 hosts.length)), z)

/-- The answer to a call. -/
def answer (c : Call) (z : Zone) : c.Answer × Zone :=
  match z.failures.lookup c.kind with
  | some e => (.error e, z)
  | none => z.perform c

/-- The zone as something that answers calls. -/
def remote : Remote Zone := ⟨provider, answer⟩

/-- The zones that can come about: from the empty one by calls, and by records put in or taken
out and actions made to fail without a call. -/
inductive Reachable : Zone → Prop where
  | empty : Reachable empty
  | answer {z : Zone} (c : Call) (h : Reachable z) : Reachable (z.answer c).2
  | seed {z : Zone} (host : String) (type : RecordType) (value : String) (ttl : UInt32)
      (h : Reachable z) : Reachable (z.seed host type value ttl)
  | remove {z : Zone} (id : String) (h : Reachable z) : Reachable (z.remove id)
  | fail {z : Zone} (kind : ActionKind) (e : ServiceError) (h : Reachable z) :
      Reachable (z.fail kind e)
  | recover {z : Zone} (h : Reachable z) : Reachable { z with failures := [] }

end Zone

end WeightedDns
