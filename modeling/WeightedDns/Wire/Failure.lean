import WeightedDns.Remote.Error

/-!
# Error codes of the service

The service reports an error by a code and a message. `causeOf` says what each code means; some
causes take what the call was about from its context. A code that is not known stays as it is.
-/

namespace WeightedDns.Wire

/-- What a call was about, as far as errors name it. -/
structure Context where
  recordName : Option String
  recordId : Option String
  domain : Option String
  deriving DecidableEq, Repr

namespace Context

/-- A call about a zone. -/
def ofDomain (domain : String) : Context := ⟨none, none, some domain⟩

/-- A call about a record. -/
def ofRecord (id : String) : Context := ⟨none, some id, none⟩

/-- A call about a record that names a host as well. -/
def ofNamedRecord (id name : String) : Context := ⟨some name, some id, none⟩

/-- A call about a host of a zone. -/
def ofHost (domain name : String) : Context := ⟨some name, none, some domain⟩

end Context

/-- The name of the service. -/
def provider : String := "aliyun"

/-- The codes for a refused access key. -/
def credentialCodes : List String :=
  ["InvalidAccessKeyId.NotFound", "InvalidAccessKeyId.Inactive", "SignatureDoesNotMatch",
    "IncompleteSignature"]

/-- The codes for a record that is there already. -/
def recordExistsCodes : List String := ["DomainRecordDuplicate", "DomainRecordConflict"]

/-- The codes for a record that is gone. -/
def recordGoneCodes : List String :=
  ["DomainRecordNotBelongToUser", "InvalidRecordId.NotFound", "InvalidRR.NoExist",
    "RecordNotExist"]

/-- The codes for a zone that does not exist. -/
def domainGoneCodes : List String :=
  ["InvalidDomainName.NoExist", "DomainNotFound", "IncorrectDomainUser"]

/-- The codes for a quota that is used up. -/
def quotaCodes : List String :=
  ["QuotaExceeded.ARecord", "QuotaExceeded.Record", "QuotaExceeded.FreeDnsRecord",
    "QuotaExceeded.SubDomain", "QuotaExceeded.TTL", "LineDnsSlb.QuotaExceeded"]

/-- The codes for too many requests. -/
def throttlingCodes : List String := ["Throttling", "Throttling.User", "Throttling.Api"]

/-- The codes for a zone or record that is locked. -/
def lockedCodes : List String :=
  ["DomainRecordLocked", "DomainExpiredDNSForbidden", "Forbidden.DomainExpired",
    "RecordForbidden.BlackHole"]

/-- The codes for an action that is not allowed. -/
def forbiddenCodes : List String :=
  ["Forbidden", "Forbidden.RiskControl", "Forbidden.RAM", "OperationDomain.NoPermission",
    "IllegalUser"]

/-- The codes for a parameter that is refused, each with the parameter. -/
def parameterCodes : List (String × String) :=
  [("InvalidRR.TypeEmpty", "type"), ("SubDomainInvalid.Type", "type"),
    ("InvalidRR.AValue", "value"), ("InvalidRR.AAAAValue", "value"),
    ("InvalidRR.MXValue", "value"), ("InvalidRR.NSValue", "value"),
    ("InvalidRR.RrEmpty", "rr"), ("InvalidRR.Format", "rr"), ("Record.Invalid.Rr", "rr"),
    ("InvalidRR.Length", "rr"), ("SubDomainInvalid.TTL", "ttl"),
    ("SubDomainInvalid.Line", "line"), ("UnsupportedLine", "line"),
    ("SubDomainInvalid.Priority", "priority"), ("InvalidWeight", "weight"),
    ("LineDnsSlb.InvalidWeight", "weight"), ("InvalidDomainName.Format", "domain"),
    ("InvalidDomainName.Suffix", "domain"), ("InvalidDomainName.Length", "domain"),
    ("DomainEmpty", "domain")]

/-- What an error code with a message means for a call. -/
def causeOf (context : Context) (code message : String) : Cause :=
  if code ∈ credentialCodes then .invalidCredentials (some message)
  else if code ∈ recordExistsCodes then
    .recordExists (context.recordName.getD "") (some message)
  else if code ∈ recordGoneCodes then .recordNotFound (context.recordId.getD "") (some message)
  else if code ∈ domainGoneCodes then .domainNotFound (context.domain.getD "") (some message)
  else if code ∈ quotaCodes then .quotaExceeded (some message)
  else if code ∈ throttlingCodes then .rateLimited none (some message)
  else if code ∈ lockedCodes then .domainLocked (context.domain.getD "") (some message)
  else if code ∈ forbiddenCodes then .permissionDenied (some message)
  else
    match parameterCodes.lookup code with
    | some parameter => .invalidParameter parameter message
    | none => .unknown (some code) message

end WeightedDns.Wire
