import WeightedDns.Json.Record

/-!
# Errors of the service

Every action of the service can fail with one of these causes, which name what went wrong and not
how it was reported. `ServiceError.message` holds all wording. Three classes are told apart:
errors that a user can expect, errors that say that a record is gone, and passing errors that are
worth another attempt.
-/

namespace WeightedDns

/-- What went wrong in an action of the service. A `note` is the service's own message. -/
inductive Cause where
  /-- No connection, or an answer of a gateway in between. -/
  | network (detail : String)
  /-- The access key was refused. -/
  | invalidCredentials (note : Option String)
  /-- A record of the same host, type and value is there already. -/
  | recordExists (name : String) (note : Option String)
  /-- The record is gone, or belongs to someone else. -/
  | recordNotFound (id : String) (note : Option String)
  | invalidParameter (parameter : String) (detail : String)
  /-- A record has a type that no weighted set can have. -/
  | unsupportedType (type : String)
  | quotaExceeded (note : Option String)
  /-- Too many requests; the service may say after how many seconds to come back. -/
  | rateLimited (retryAfter : Option UInt64) (note : Option String)
  | timeout (detail : String)
  | domainNotFound (domain : String) (note : Option String)
  /-- The zone or the record is locked against changes. -/
  | domainLocked (domain : String) (note : Option String)
  | permissionDenied (note : Option String)
  /-- The body of a reply has not the form that the action promises. -/
  | malformedReply (detail : String)
  | unencodableRequest (detail : String)
  /-- Any other error, with its code if it has one. -/
  | unknown (code : Option String) (note : String)
  deriving DecidableEq, Repr

/-- An error of an action, with the name of the service that raised it. -/
structure ServiceError where
  provider : String
  cause : Cause
  deriving DecidableEq, Repr

namespace Cause

/-- The service's message behind a colon, if there is one. -/
def noteSuffix : Option String → String
  | none => ""
  | some note => s!": {note}"

/-- The wording of a cause. -/
def message : Cause → String
  | .network detail => s!"Network error: {detail}"
  | .invalidCredentials note => s!"Invalid credentials{noteSuffix note}"
  | .recordExists name _ => s!"Record '{name}' already exists"
  | .recordNotFound id _ => s!"Record '{id}' not found"
  | .invalidParameter parameter detail => s!"Invalid parameter '{parameter}': {detail}"
  | .unsupportedType type => s!"Unsupported record type: {type}"
  | .quotaExceeded _ => "Quota exceeded"
  | .rateLimited none _ => "Rate limited"
  | .rateLimited (some seconds) _ => s!"Rate limited (retry after {seconds}s)"
  | .timeout detail => s!"Request timeout: {detail}"
  | .domainNotFound domain note => s!"Domain '{domain}' not found{noteSuffix note}"
  | .domainLocked domain note => s!"Domain '{domain}' is locked{noteSuffix note}"
  | .permissionDenied note => s!"Permission denied{noteSuffix note}"
  | .malformedReply detail => s!"Parse error: {detail}"
  | .unencodableRequest detail => s!"Serialization error: {detail}"
  | .unknown none note => note
  | .unknown (some code) note => s!"{code}: {note}"

/-- Whether a user has to expect the error: it comes from the input or the account. -/
def isExpected : Cause → Bool
  | .invalidCredentials _ | .recordExists _ _ | .recordNotFound _ _ | .invalidParameter _ _
  | .unsupportedType _ | .quotaExceeded _ | .domainNotFound _ _ | .domainLocked _ _
  | .permissionDenied _ => true
  | _ => false

/-- Whether the error says that a record is gone. -/
def isNotFound : Cause → Bool
  | .recordNotFound _ _ => true
  | _ => false

/-- Whether another attempt may succeed. -/
def isRetryable : Cause → Bool
  | .network _ | .timeout _ | .rateLimited _ _ => true
  | _ => false

/-- The word that stands for the cause in JSON. -/
def code : Cause → String
  | .network _ => "NetworkError"
  | .invalidCredentials _ => "InvalidCredentials"
  | .recordExists _ _ => "RecordExists"
  | .recordNotFound _ _ => "RecordNotFound"
  | .invalidParameter _ _ => "InvalidParameter"
  | .unsupportedType _ => "UnsupportedRecordType"
  | .quotaExceeded _ => "QuotaExceeded"
  | .rateLimited _ _ => "RateLimited"
  | .timeout _ => "Timeout"
  | .domainNotFound _ _ => "DomainNotFound"
  | .domainLocked _ _ => "DomainLocked"
  | .permissionDenied _ => "PermissionDenied"
  | .malformedReply _ => "ParseError"
  | .unencodableRequest _ => "SerializationError"
  | .unknown _ _ => "Unknown"

/-- The members that a cause has in JSON besides the provider. -/
def members : Cause → List (String × Json)
  | .network detail | .timeout detail | .malformedReply detail | .unencodableRequest detail =>
    [("detail", .text detail)]
  | .invalidCredentials note | .quotaExceeded note | .permissionDenied note =>
    [("raw_message", .ofOption .text note)]
  | .recordExists name note =>
    [("record_name", .text name), ("raw_message", .ofOption .text note)]
  | .recordNotFound id note => [("record_id", .text id), ("raw_message", .ofOption .text note)]
  | .invalidParameter parameter detail => [("param", .text parameter), ("detail", .text detail)]
  | .unsupportedType type => [("record_type", .text type)]
  | .rateLimited seconds note =>
    [("retry_after", .ofOption .ofUInt64 seconds), ("raw_message", .ofOption .text note)]
  | .domainNotFound domain note | .domainLocked domain note =>
    [("domain", .text domain), ("raw_message", .ofOption .text note)]
  | .unknown code note => [("raw_code", .ofOption .text code), ("raw_message", .text note)]

end Cause

namespace ServiceError

/-- The wording of an error. -/
def message (e : ServiceError) : String := s!"[{e.provider}] {e.cause.message}"

/-- An error as JSON. -/
def toJson (e : ServiceError) : Json :=
  .object (("code", .text e.cause.code) :: ("provider", .text e.provider) :: e.cause.members)

/-- The members besides the code and the provider, in their order, of the causes with a code. -/
def memberNames? (code : String) : Option (List String) :=
  if code ∈ ["NetworkError", "Timeout", "ParseError", "SerializationError"] then
    some ["detail"]
  else if code ∈ ["InvalidCredentials", "QuotaExceeded", "PermissionDenied"] then
    some ["raw_message"]
  else if code = "RecordExists" then some ["record_name", "raw_message"]
  else if code = "RecordNotFound" then some ["record_id", "raw_message"]
  else if code = "InvalidParameter" then some ["param", "detail"]
  else if code = "UnsupportedRecordType" then some ["record_type"]
  else if code = "RateLimited" then some ["retry_after", "raw_message"]
  else if code ∈ ["DomainNotFound", "DomainLocked"] then some ["domain", "raw_message"]
  else if code = "Unknown" then some ["raw_code", "raw_message"]
  else none

/-- Read a cause with a code from its members. -/
def readCause? (code : String) (m : Json.Members) : Option Cause := do
  let text (name : String) : Option String := m.required name Json.asText?
  let optionalText (name : String) : Option (Option String) := m.optional name Json.asText?
  match code with
  | "NetworkError" => some (.network (← text "detail"))
  | "Timeout" => some (.timeout (← text "detail"))
  | "ParseError" => some (.malformedReply (← text "detail"))
  | "SerializationError" => some (.unencodableRequest (← text "detail"))
  | "InvalidCredentials" => some (.invalidCredentials (← optionalText "raw_message"))
  | "QuotaExceeded" => some (.quotaExceeded (← optionalText "raw_message"))
  | "PermissionDenied" => some (.permissionDenied (← optionalText "raw_message"))
  | "RecordExists" =>
    some (.recordExists (← text "record_name") (← optionalText "raw_message"))
  | "RecordNotFound" =>
    some (.recordNotFound (← text "record_id") (← optionalText "raw_message"))
  | "InvalidParameter" => some (.invalidParameter (← text "param") (← text "detail"))
  | "UnsupportedRecordType" => some (.unsupportedType (← text "record_type"))
  | "RateLimited" =>
    let seconds ← m.optional "retry_after" Json.asUInt64?
    some (.rateLimited seconds (← optionalText "raw_message"))
  | "DomainNotFound" =>
    some (.domainNotFound (← text "domain") (← optionalText "raw_message"))
  | "DomainLocked" => some (.domainLocked (← text "domain") (← optionalText "raw_message"))
  | "Unknown" => some (.unknown (← optionalText "raw_code") (← text "raw_message"))
  | _ => none

/-- Read an error whose code is known from the value that holds its other members. -/
def readWith? (code : String) (j : Json) : Option ServiceError := do
  let names ← memberNames? code
  let m ← j.members? ("provider" :: names) false
  some { provider := ← m.required "provider" Json.asText?, cause := ← readCause? code m }

/-- Read an error. The code stands under its name in an object, or first in an array. All of the
value has to be readable, also members that are passed over. -/
def ofJson? (j : Json) : Option ServiceError :=
  if !j.readable Json.depthLimit then none
  else
    match j with
    | .object members =>
      match members.filter fun m => m.1 == "code" with
      | [(_, .text code)] => readWith? code (.object (members.filter fun m => m.1 != "code"))
      | _ => none
    | .array (.text code :: rest) => readWith? code (.array rest)
    | _ => none

end ServiceError

end WeightedDns
