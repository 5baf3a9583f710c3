import WeightedDns.Wire.Client

/-!
# Prepared deliveries

A script is a transport that plays back prepared deliveries: for each action in order, the last
one again and again. An action without any is confirmed. The clock moves only while the client
waits, and all requests are kept with the time at which they were sent.
-/

namespace WeightedDns.Wire

/-- A transport that plays back prepared deliveries. -/
structure Script where
  /-- The deliveries still to come, by action. -/
  deliveries : List (String × List Delivery)
  /-- The milliseconds that have passed. -/
  clock : Nat
  /-- The requests and the times at which they were sent, the latest first. -/
  sent : List (Request × Nat)

namespace Script

/-- What is delivered for an action without prepared deliveries. -/
def confirmation : Delivery :=
  .replied ⟨200, none, .ok "\x7b\"RequestId\":\"req-0\"\x7d"⟩

/-- A script that starts now. -/
def start (deliveries : List (String × List Delivery)) : Script := ⟨deliveries, 0, []⟩

/-- The next delivery for an action, and the deliveries that then are to come. -/
def next (action : String) :
    List (String × List Delivery) → Delivery × List (String × List Delivery)
  | [] => (confirmation, [])
  | (name, ds) :: rest =>
    if name = action then
      match ds with
      | [] => (confirmation, (name, ds) :: rest)
      | [d] => (d, (name, [d]) :: rest)
      | d :: ds => (d, (name, ds) :: rest)
    else
      let (d, rest) := next action rest
      (d, (name, ds) :: rest)

/-- The script as a transport. -/
def transport : Transport Script where
  stamp _ := ⟨"", ""⟩
  send r s :=
    let (d, deliveries) := next r.action s.deliveries
    (d, { s with deliveries, sent := (r, s.clock) :: s.sent })
  wait ms s := { s with clock := s.clock + ms }

end Script

end WeightedDns.Wire
