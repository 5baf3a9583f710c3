import WeightedDns.Json.Reader
import WeightedDns.Text.Excerpt
import WeightedDns.Wire.Action

/-!
# What a delivery means

A request is delivered, or sending it fails. Of a reply, status 429 and the statuses 502 to 504
speak for themselves. Otherwise the body decides: if it is JSON with a text under `Code`, that is
the error, whatever the status says; if not, a status from 400 on is an error; and only then is
the body read as the reply that the action promises.
-/

namespace WeightedDns.Wire

/-- A reply as it comes over the wire. -/
structure Reply where
  status : Nat
  /-- The header that says after how many seconds to come back. -/
  retryAfter : Option String
  /-- The body, or why it could not be read. -/
  body : Except String String

/-- What comes of sending a request. -/
inductive Delivery where
  /-- Sending failed, perhaps because it took too long. -/
  | failed (timedOut : Bool) (detail : String)
  | replied (reply : Reply)

/-- Whether a character can stand in a header that is read. -/
def isHeaderChar (c : Char) : Bool := c == '\t' || (0x20 ≤ c.toNat && c.toNat ≤ 0x7E)

/-- The number that a header stands for: digits, perhaps behind a plus sign, up to 64 bits. -/
def headerNumber? (s : String) : Option UInt64 :=
  let digits :=
    match s.toList with
    | '+' :: rest => rest
    | cs => cs
  if digits.isEmpty || !digits.all Char.isDigit then none
  else
    let n := digits.foldl (fun n c => n * 10 + (c.toNat - '0'.toNat)) 0
    if n < UInt64.size then some (UInt64.ofNat n) else none

namespace Reply

/-- The hint when to come back. -/
def retryHint? (r : Reply) : Option UInt64 :=
  r.retryAfter.bind fun s => if s.toList.all isHeaderChar then headerNumber? s else none

/-- The status and an excerpt of the body in words. -/
def summary (r : Reply) (body : String) : String := s!"HTTP {r.status}: {Text.excerpt body}"

/-- The body, empty where it cannot be read. -/
def bodyText (r : Reply) : String := r.body.toOption.getD ""

end Reply

/-- The code and message of a body that reports an error: JSON that can be read as a whole, with a
text under `Code`. -/
def reportedError? (body : Option Json) : Option (String × String) := do
  let j ← body
  if !j.readable Json.depthLimit then none
  else
    let j := j.settled
    match j.get? "Code" with
    | some (.text code) => some (code, ((j.get? "Message").bind Json.asText?).getD "")
    | _ => none

/-- What a reply means for a call. -/
def Reply.meaning (r : Reply) (c : Call) : Except Cause c.Reply :=
  if r.status = 429 then .error (.rateLimited r.retryHint? (some r.bodyText))
  else if 502 ≤ r.status ∧ r.status ≤ 504 then .error (.network (r.summary r.bodyText))
  else
    match r.body with
    | .error detail => .error (.network s!"Failed to read response body: {detail}")
    | .ok body =>
      let json := Json.parse? body
      match reportedError? json with
      | some (code, message) => .error (causeOf c.context code message)
      | none =>
        if 500 ≤ r.status then .error (.network (r.summary body))
        else if 400 ≤ r.status then .error (.unknown none (r.summary body))
        else
          match json with
          | some j => c.readReply j
          | none => .error Call.malformed

/-- What comes of a call when its request is delivered in some way. -/
def Delivery.answer (d : Delivery) (c : Call) : c.Answer :=
  let result : Except Cause c.Reply :=
    match d with
    | .failed true detail => .error (.timeout detail)
    | .failed false detail => .error (.network detail)
    | .replied r => r.meaning c
  result.mapError fun cause => ⟨provider, cause⟩

end WeightedDns.Wire
