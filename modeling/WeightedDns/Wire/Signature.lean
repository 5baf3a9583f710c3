import WeightedDns.Digest.Sha256
import WeightedDns.Wire.Credentials
import WeightedDns.Wire.Endpoint

/-!
# Signed requests

A request carries all its parameters in the query and has no body. It is signed over its canonical
form, a text that names method, path, query, the signed headers with their values and the digest
of the body.
-/

namespace WeightedDns.Wire

/-- The version of the protocol of the service. -/
def protocolVersion : String := "2015-01-09"

/-- The digest of the empty body. -/
def emptyBodyDigest : String := Digest.hexText (Digest.sha256 [])

/-- The date and the number used once that set a request apart from its repetitions. -/
structure Stamp where
  date : String
  nonce : String
  deriving DecidableEq, Repr

/-- A request before it is signed. -/
structure Request where
  endpoint : Endpoint
  action : String
  query : String
  stamp : Stamp
  deriving DecidableEq, Repr

namespace Request

/-- The address that is asked. -/
def url (r : Request) : String := r.endpoint.url r.query

/-- The headers that are signed, in the order of their names. -/
def signedHeaders (r : Request) : List (String × String) :=
  [("host", r.endpoint.host), ("x-acs-action", r.action),
    ("x-acs-content-sha256", emptyBodyDigest), ("x-acs-date", r.stamp.date),
    ("x-acs-signature-nonce", r.stamp.nonce), ("x-acs-version", protocolVersion)]

/-- The names of the signed headers. -/
def signedNames (r : Request) : String :=
  String.intercalate ";" (r.signedHeaders.map (·.1))

/-- The text that is signed in place of the request. -/
def canonical (r : Request) : String :=
  let headers := String.join (r.signedHeaders.map fun h => s!"{h.1}:{h.2}\n")
  String.intercalate "\n" ["POST", "/", r.query, headers, r.signedNames, emptyBodyDigest]

/-- The name of the way of signing. -/
def scheme : String := "ACS3-HMAC-SHA256"

/-- The signature under a secret. -/
def signature (secret : String) (r : Request) : String :=
  let digest := Digest.hexText (Digest.sha256 (Digest.utf8 r.canonical))
  Digest.hexText (Digest.hmacSha256 (Digest.utf8 secret) (Digest.utf8 s!"{scheme}\n{digest}"))

/-- The authorization without the signature itself. -/
def claim (keyId : String) (r : Request) : String :=
  s!"{scheme} Credential={keyId},SignedHeaders={r.signedNames},"

/-- The value of the authorization header. -/
def authorization (c : Credentials) (r : Request) : String :=
  s!"{r.claim c.keyId}Signature={r.signature c.keySecret}"

end Request

end WeightedDns.Wire
