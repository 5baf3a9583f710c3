import Mathlib.Algebra.BigOperators.Intervals
import Mathlib.Order.Bounds.Basic
import WeightedDns.Wire.Client

/-!
# Repeated requests

Every call keeps to one rule, which needs no more of a service than the sequence of its deliveries
(`answer_playing`). The request is repeated as long as the delivery is taken for a passing error
and retries are left; it changes only in its stamp. What is delivered last is the answer. `pause`
says how long is waited after each attempt.

`Transport.watched` keeps a record of a transport and a clock, and `Transport.playing` delivers a
given sequence.
-/

namespace WeightedDns

/-- An error that a user has to expect never passes by itself. -/
theorem Cause.isRetryable_of_isExpected {cause : Cause} (h : cause.isExpected = true) :
    cause.isRetryable = false := by
  cases cause <;> first | rfl | cases h

namespace Wire

/-- A request that has been sent, and the milliseconds that had been waited until then. -/
structure Sent where
  request : Request
  time : Nat
  deriving DecidableEq, Repr

/-- A state of a transport with a clock and a record of what has been sent. -/
structure Watched (τ : Type) where
  state : τ
  clock : Nat
  sent : List Sent

namespace Transport

/-- A transport under a watch: time passes only while the client waits. -/
def watched {τ : Type} (transport : Transport τ) : Transport (Watched τ) where
  stamp w := transport.stamp w.state
  send r w :=
    let (d, t) := transport.send r w.state
    (d, ⟨t, w.clock, w.sent ++ [⟨r, w.clock⟩]⟩)
  wait ms w := ⟨transport.wait ms w.state, w.clock + ms, w.sent⟩

/-- A transport that delivers a sequence; its state is the number of requests sent so far. -/
def playing (deliveries : Nat → Delivery) (stamps : Nat → Stamp) : Transport Nat where
  stamp n := stamps n
  send _ n := (deliveries n, n + 1)
  wait _ n := n

end Transport

/-- The delivery is taken for an error of a call that is worth another attempt. -/
def Delivery.IsPassing (d : Delivery) (c : Call) : Prop :=
  ∃ e, d.answer c = .error e ∧ e.cause.isRetryable = true

/-! ## Pauses -/

/-- The seconds after which the service has asked to come back. -/
def hint? : Cause → Option UInt64
  | .rateLimited hint _ => hint
  | _ => none

/-- The milliseconds to wait after the attempt with a number that has failed: the time that the
service asks for, but at most thirty seconds, or else a tenth of a second doubled with every
attempt, but at most ten seconds. -/
def pause (cause : Cause) (attempt : Nat) : Nat :=
  match hint? cause with
  | some seconds => 1000 * min seconds.toNat 30
  | none => min (100 * 2 ^ attempt) 10000

/-- The milliseconds to wait after an attempt with a delivery, if the request is repeated. -/
def Delivery.pause (d : Delivery) (c : Call) (attempt : Nat) : Nat :=
  match d.answer c with
  | .error e => Wire.pause e.cause attempt
  | .ok _ => 0

/-- The bound on the exponent changes nothing, since the bound on the time is reached before. -/
theorem backoff_eq (attempt : Nat) : backoff attempt = min (100 * 2 ^ attempt) 10000 := by
  change min (100 * 2 ^ min attempt 20) 10000 = _
  rcases Nat.le_total attempt 20 with h | h
  · rw [Nat.min_eq_left h]
  · have hpower : 2 ^ 20 ≤ 2 ^ attempt := Nat.pow_le_pow_right (by decide) h
    rw [Nat.min_eq_right h]
    omega

theorem retryDelay_eq (cause : Cause) (attempt : Nat) :
    retryDelay cause attempt = pause cause attempt := by
  have hbackoff := backoff_eq attempt
  unfold retryDelay pause
  split
  · rfl
  · rename_i hother
    cases cause with
    | rateLimited hint note =>
      cases hint with
      | none => exact hbackoff
      | some seconds => exact (hother seconds note rfl).elim
    | _ => exact hbackoff

theorem pause_le (cause : Cause) (attempt : Nat) : pause cause attempt ≤ 30000 := by
  unfold pause
  split <;> omega

/-- Without a hint pauses never get shorter, whatever the errors are. -/
theorem pause_mono {cause cause' : Cause} {i j : Nat} (h : hint? cause = none)
    (h' : hint? cause' = none) (hij : i ≤ j) : pause cause i ≤ pause cause' j := by
  have hpower : 2 ^ i ≤ 2 ^ j := Nat.pow_le_pow_right (by decide) hij
  rw [pause, pause, h, h']
  dsimp only
  omega

/-! ## The course of a call -/

namespace Client

variable (client : Client) (c : Call) (deliveries : Nat → Delivery) (stamps : Nat → Stamp)

/-- The milliseconds that have been waited before the attempt with a number. -/
def waited (n : Nat) : Nat := ∑ i ∈ Finset.range n, (deliveries i).pause c i

/-- What has been sent before the attempt with a number. -/
def sentBefore (n : Nat) : List Sent :=
  (List.range n).map fun i => ⟨client.request c (stamps i), waited c deliveries i⟩

/-- The state in which the attempt with a number begins. -/
def underway (n : Nat) : Watched Nat :=
  ⟨n, waited c deliveries n, client.sentBefore c deliveries stamps n⟩

variable {c deliveries stamps}

/-- One attempt sends the request at the time that has been reached. -/
theorem sendOnce_underway (n : Nat) :
    client.sendOnce (Transport.playing deliveries stamps).watched c
        (client.underway c deliveries stamps n) =
      ((deliveries n).answer c,
        ⟨n + 1, waited c deliveries n, client.sentBefore c deliveries stamps (n + 1)⟩) := by
  simp only [sentBefore, List.range_succ, List.map_append]
  rfl

/-- After a passing error the next attempt is reached by waiting. -/
theorem wait_underway {n : Nat} {e : ServiceError} (h : (deliveries n).answer c = .error e) :
    (Transport.playing deliveries stamps).watched.wait (retryDelay e.cause n)
        ⟨n + 1, waited c deliveries n, client.sentBefore c deliveries stamps (n + 1)⟩ =
      client.underway c deliveries stamps (n + 1) := by
  have hpause : (deliveries n).pause c n = retryDelay e.cause n := by
    rw [Delivery.pause, h, retryDelay_eq]
  have hclock : waited c deliveries (n + 1) = waited c deliveries n + retryDelay e.cause n := by
    rw [waited, Finset.sum_range_succ, hpause]
    rfl
  rw [underway, hclock]
  rfl

variable (c deliveries stamps) in
/-- From any attempt on, the first delivery that is no passing error is the last, or that of the
last retry. -/
theorem exists_attempts_underway (retries n : Nat) :
    ∃ k, n ≤ k ∧ k ≤ n + retries ∧ (∀ i, n ≤ i → i < k → (deliveries i).IsPassing c) ∧
      (k = n + retries ∨ ¬ (deliveries k).IsPassing c) ∧
      client.attempts (Transport.playing deliveries stamps).watched c retries n
          (client.underway c deliveries stamps n) =
        ((deliveries k).answer c,
          ⟨k + 1, waited c deliveries k, client.sentBefore c deliveries stamps (k + 1)⟩) := by
  -- by induction on the retries that are left
  induction retries generalizing n with
  | zero =>
    refine ⟨n, le_rfl, le_rfl, fun i hni hin => absurd hni (by omega), .inl rfl, ?_⟩
    rw [attempts, sendOnce_underway]
  | succ retries ih =>
    rw [attempts, sendOnce_underway]
    cases hanswer : (deliveries n).answer c with
    | ok value =>
      refine ⟨n, le_rfl, by omega, fun i hni hin => absurd hni (by omega), .inr ?_, ?_⟩
      · rintro ⟨e, he, -⟩
        rw [hanswer] at he
        cases he
      · rw [hanswer]
    | error e =>
      dsimp only
      split
      · rename_i hpassing
        obtain ⟨k, hnk, hk, hpassed, hstop, hrun⟩ := ih (n + 1)
        refine ⟨k, by omega, by omega, fun i hni hik => ?_, ?_, ?_⟩
        · rcases Nat.eq_or_lt_of_le hni with rfl | hlater
          · exact ⟨e, hanswer, hpassing⟩
          · exact hpassed i hlater hik
        · rwa [Nat.add_right_comm, Nat.add_assoc] at hstop
        · rw [wait_underway client hanswer]
          exact hrun
      · rename_i hstays
        refine ⟨n, le_rfl, by omega, fun i hni hin => absurd hni (by omega), .inr ?_, ?_⟩
        · rintro ⟨e', he', hpassing⟩
          obtain rfl := Except.error.inj (hanswer.symm.trans he')
          exact hstays hpassing
        · rw [hanswer]

end Client

/-- A call over any sequence of deliveries. It ends with the first delivery that is no passing
error, or with that of the last retry, and this is its answer. One request is sent for each
delivery up to there, every time with the same action and address, and as many milliseconds after
the first one as the pauses before it make up. Pauses last at most thirty seconds, without hints
they never get shorter, and what a user has to expect is never tried again. -/
theorem answer_playing (client : Client) (c : Call) (deliveries : Nat → Delivery)
    (stamps : Nat → Stamp) :
    (∃ k, IsLeast {k | k = client.maxRetries.toNat ∨ ¬ (deliveries k).IsPassing c} k ∧
      (client.remote (Transport.playing deliveries stamps).watched).answer c ⟨0, 0, []⟩ =
        ((deliveries k).answer c, ⟨k + 1, ∑ i ∈ Finset.range k, (deliveries i).pause c i,
          (List.range (k + 1)).map fun j =>
            ⟨client.request c (stamps j), ∑ i ∈ Finset.range j, (deliveries i).pause c i⟩⟩)) ∧
    (∀ stamp, (client.request c stamp).action = c.actionName ∧
      (client.request c stamp).url = client.endpoint.url (Query.text c.parameters)) ∧
    (∀ cause attempt, pause cause attempt ≤ 30000) ∧
    (∀ cause cause' i j, hint? cause = none → hint? cause' = none → i ≤ j →
      pause cause i ≤ pause cause' j) ∧
    ∀ d : Delivery, d.IsPassing c →
      ∃ e, d.answer c = .error e ∧ e.cause.isRetryable = true ∧ e.cause.isExpected = false := by
  refine ⟨?_, fun stamp => ⟨rfl, rfl⟩, pause_le, fun _ _ _ _ h h' hij => pause_mono h h' hij, ?_⟩
  · obtain ⟨k, -, hk, hpassed, hstop, hrun⟩ :=
      client.exists_attempts_underway c deliveries stamps client.maxRetries.toNat 0
    rw [Nat.zero_add] at hk hstop
    refine ⟨k, ⟨hstop, fun i hi => ?_⟩, hrun⟩
    by_contra hlt
    rcases hi with hi | hi
    · omega
    · exact hi (hpassed i (Nat.zero_le i) (by omega))
  · rintro d ⟨e, he, hpassing⟩
    refine ⟨e, he, hpassing, ?_⟩
    cases hexpected : e.cause.isExpected with
    | false => rfl
    | true =>
      rw [Cause.isRetryable_of_isExpected hexpected] at hpassing
      cases hpassing

end Wire

end WeightedDns
