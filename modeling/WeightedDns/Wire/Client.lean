import WeightedDns.Wire.Query
import WeightedDns.Wire.Reply
import WeightedDns.Wire.Signature

/-!
# The client

The client turns every call into a signed request and its delivery into an answer. Passing errors
are met by waiting and sending the request again, with a new stamp, while retries are left: after
the time that the service asks for, but at most thirty seconds, or else after a tenth of a second
that doubles with every attempt up to ten seconds.
-/

namespace WeightedDns.Wire

/-- A way of sending requests, from a state that may change with every use. -/
structure Transport (τ : Type) where
  /-- The date and the number used once of the next request. -/
  stamp : τ → Stamp
  /-- Send a request. -/
  send : Request → τ → Delivery × τ
  /-- Let some milliseconds pass. -/
  wait : Nat → τ → τ

/-- The client of the service. -/
structure Client where
  credentials : Credentials
  endpoint : Endpoint
  /-- How often a request is repeated at most. -/
  maxRetries : UInt32

/-- How often a request is repeated at most unless another number is given. -/
def defaultRetries : UInt32 := 2

/-- The longest time in seconds that the service can ask for. -/
def longestHint : Nat := 30

/-- The longest time in milliseconds between attempts for which the service has given none. -/
def longestBackoff : Nat := 10000

/-- The milliseconds to wait after the attempt with a number, counted from zero. -/
def backoff (attempt : Nat) : Nat := min (100 * Nat.pow 2 (min attempt 20)) longestBackoff

/-- The milliseconds to wait after an attempt that has failed. -/
def retryDelay (cause : Cause) (attempt : Nat) : Nat :=
  match cause with
  | .rateLimited (some seconds) _ => 1000 * min seconds.toNat longestHint
  | _ => backoff attempt

namespace Client

/-- A client for an access key, none if the key is at fault. -/
def new (c : Credentials) (endpoint : Option String) (maxRetries : Option UInt32) :
    Except ServiceError Client :=
  match c.fault? with
  | some fault => .error ⟨provider, .invalidCredentials (some fault.message)⟩
  | none => .ok {
      credentials := c
      endpoint := endpoint.elim .standard .ofText
      maxRetries := maxRetries.getD defaultRetries }

variable {τ : Type}

/-- The request for a call. -/
def request (client : Client) (c : Call) (stamp : Stamp) : Request :=
  ⟨client.endpoint, c.actionName, Query.text c.parameters, stamp⟩

/-- Send the request for a call once. -/
def sendOnce (client : Client) (transport : Transport τ) (c : Call) (t : τ) : c.Answer × τ :=
  let (delivery, t) := transport.send (client.request c (transport.stamp t)) t
  (delivery.answer c, t)

/-- Send the request for a call until the answer is no passing error or no retry is left. -/
def attempts (client : Client) (transport : Transport τ) (c : Call) (retries attempt : Nat)
    (t : τ) : c.Answer × τ :=
  let (answer, t) := client.sendOnce transport c t
  match retries, answer with
  | retries + 1, .error e =>
    if e.cause.isRetryable then
      attempts client transport c retries (attempt + 1)
        (transport.wait (retryDelay e.cause attempt) t)
    else (.error e, t)
  | _, answer => (answer, t)

/-- The service behind the client. -/
def remote (client : Client) (transport : Transport τ) : Remote τ where
  provider := provider
  answer c t := client.attempts transport c client.maxRetries.toNat 0 t

end Client

end WeightedDns.Wire
