import WeightedDns.Plan
import WeightedDns.Remote.Error

/-!
# Errors of the lifecycle

An operation on a record set fails because its configuration is refused, an identifier cannot be
read, the tracked records and the entries have come apart, or a call of the service failed; then
the error says what was attempted.
-/

namespace WeightedDns

/-- Why a configuration is refused before any call. -/
inductive Objection where
  | fault (fault : RecordSet.Fault)
  | domainChange (current desired : String)
  /-- An objection in words. -/
  | stated (reason : String)
  deriving DecidableEq, Repr

/-- The wording of an objection. -/
def Objection.message : Objection → String
  | .fault f => f.message
  | .domainChange current desired =>
    s!"domain_name cannot change from '{current}' to '{desired}'; the record set must be replaced"
  | .stated reason => reason

/-- What a call was made for. -/
inductive Attempt where
  | describeDomain (domain : String)
  | listRecords (domain : String)
  | createRecord (name value : String)
  | changeRecord (id : String)
  | setWeight (id : String)
  | setRemark (id : String)
  | setStatus (id : String)
  | setWeighting (name : String)
  | deleteRecord (id : String)
  | readRecord (id : String)
  | readWeighting (name : String)
  /-- Any other operation on some object. -/
  | other (operation target : String)
  deriving DecidableEq, Repr

namespace Attempt

/-- What was attempted. -/
def operation : Attempt → String
  | .describeDomain _ => "describe domain"
  | .listRecords _ => "list records"
  | .createRecord _ _ => "create record"
  | .changeRecord _ => "update record"
  | .setWeight _ => "set weight of record"
  | .setRemark _ => "set remark of record"
  | .setStatus _ => "set status of record"
  | .setWeighting _ => "set WRR status of"
  | .deleteRecord _ => "delete record"
  | .readRecord _ => "read record"
  | .readWeighting _ => "read WRR status of"
  | .other operation _ => operation

/-- The object of the attempt. -/
def target : Attempt → String
  | .describeDomain domain | .listRecords domain => domain
  | .createRecord name value => s!"{name} {value}"
  | .changeRecord id | .setWeight id | .setRemark id | .setStatus id | .deleteRecord id
  | .readRecord id => id
  | .setWeighting name | .readWeighting name => name
  | .other _ target => target

end Attempt

/-- Why an operation on a record set failed. -/
inductive LifecycleError where
  | refused (objection : Objection)
  | invalidImportId (text : String)
  | invalidResourceId (text : String)
  /-- Not one tracked record for each entry. -/
  | countMismatch (ids entries : Nat)
  /-- A record to be taken over belongs to another zone. -/
  | domainMismatch (recordId expected actual : String)
  /-- A call failed. -/
  | remote (attempt : Attempt) (source : ServiceError)
  deriving DecidableEq, Repr

namespace LifecycleError

/-- The error of a plan that cannot be made. -/
def ofPlanError : PlanError → LifecycleError
  | .domainChange current desired => .refused (.domainChange current desired)
  | .countMismatch ids entries => .countMismatch ids entries

/-- The wording of an error. -/
def message : LifecycleError → String
  | .refused objection => s!"Validation error: {objection.message}"
  | .invalidImportId text =>
    s!"Invalid import ID '{text}': expected <domain_name>/<record_id>"
  | .invalidResourceId text =>
    s!"Invalid resource ID '{text}': expected comma-separated record IDs"
  | .countMismatch ids entries =>
    s!"Record count mismatch: {ids} record IDs tracked for {entries} records"
  | .domainMismatch id expected actual =>
    s!"Record {id} belongs to domain {actual}, not {expected}"
  | .remote attempt source =>
    s!"{attempt.operation} {attempt.target} failed: {source.message}"

/-- Whether a user has to expect the error. -/
def isExpected : LifecycleError → Bool
  | .refused _ | .invalidImportId _ | .invalidResourceId _ | .domainMismatch _ _ _ => true
  | .countMismatch _ _ => false
  | .remote _ source => source.cause.isExpected

/-- Whether the error says that a record is gone. -/
def isNotFound : LifecycleError → Bool
  | .remote _ source => source.cause.isNotFound
  | _ => false

/-- The word that stands for the kind of error in JSON. -/
def code : LifecycleError → String
  | .refused _ => "Validation"
  | .invalidImportId _ => "InvalidImportId"
  | .invalidResourceId _ => "InvalidResourceId"
  | .countMismatch _ _ => "RecordCountMismatch"
  | .domainMismatch _ _ _ => "DomainMismatch"
  | .remote _ _ => "Remote"

/-- What JSON says of an error besides its kind. -/
def details : LifecycleError → Json
  | .refused objection => .text objection.message
  | .invalidImportId text | .invalidResourceId text => .text text
  | .countMismatch ids entries => .object [("ids", .ofNat ids), ("records", .ofNat entries)]
  | .domainMismatch id expected actual =>
    .object [("record_id", .text id), ("expected", .text expected), ("actual", .text actual)]
  | .remote attempt source =>
    .object [("operation", .text attempt.operation), ("target", .text attempt.target),
      ("source", source.toJson)]

/-- An error as JSON. -/
def toJson (e : LifecycleError) : Json :=
  .object [("code", .text e.code), ("details", e.details)]

end LifecycleError

end WeightedDns
