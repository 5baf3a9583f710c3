import WeightedDns.Wire.Client

/-!
# What deliveries are taken for

A reply is taken for what the first of its features that counts says (`Reply.Judged`). Two of the
things that it can be taken for matter to a set of records: that the record is gone, and that the
call has succeeded. `SaysGone` and `Grants` say of a reply what it has to be for that, and
`isNotFound_answer_iff` and `answer_eq_ok_iff` that nothing else is taken for it. With retries the
last delivery decides (`answer_remote`).
-/

namespace WeightedDns

namespace Json

theorem member?_insertMember (key k : String) (j : Json) (members : List (String × Json)) :
    member? key (insertMember k j members) = if k = key then some j else member? key members := by
  induction members with
  | nil => rfl
  | cons m rest ih =>
    obtain ⟨l, i⟩ := m
    unfold insertMember
    split
    · rfl
    split
    · rename_i hsame
      subst hsame
      simp only [member?]
      split <;> rfl
    · rename_i hother
      simp only [member?, ih]
      split
      · rename_i hl
        subst hl
        rw [if_neg hother]
      · rfl

/-- Of several members with one key the last counts. -/
theorem member?_settledMembers (key : String) (members done : List (String × Json)) :
    member? key (settledMembers members done) =
      ((members.reverse.lookup key).map settled).or (member? key done) := by
  -- by induction on the members still to be put in: a later one of the key replaces an earlier one
  induction members generalizing done with
  | nil => simp [settledMembers]
  | cons m rest ih =>
    obtain ⟨k, j⟩ := m
    rw [settledMembers, ih, member?_insertMember, List.reverse_cons, List.lookup_append,
      List.lookup_cons, List.lookup_nil]
    cases rest.reverse.lookup key with
    | some i => rfl
    | none =>
      by_cases hkey : k = key
      · subst hkey
        simp
      · have hne : (key == k) = false := by
          rw [beq_eq_false_iff_ne]
          exact fun h => hkey h.symm
        simp [hne, hkey]

theorem asText?_settled (j : Json) : j.settled.asText? = j.asText? := by
  cases j <;> rfl

theorem asText?_eq_some_iff {j : Json} {s : String} : j.asText? = some s ↔ j = .text s := by
  cases j <;> simp [asText?]

/-- The text under a key, where the last member counts. -/
def lastText? (members : List (String × Json)) (key : String) : Option String :=
  (members.reverse.lookup key).bind asText?

theorem lastText?_eq_some_iff {members : List (String × Json)} {key s : String} :
    lastText? members key = some s ↔ members.reverse.lookup key = some (.text s) := by
  simp [lastText?, Option.bind_eq_some_iff, asText?_eq_some_iff]

theorem get?_settled_bind_asText? (members : List (String × Json)) (key : String) :
    ((object members).settled.get? key).bind asText? = lastText? members key := by
  rw [settled, get?, member?_settledMembers, lastText?]
  cases members.reverse.lookup key with
  | none => rfl
  | some j => exact asText?_settled j

end Json

namespace Wire

/-! ## Errors in bodies -/

/-- The code and the message that an object states, whatever else is in it. With a key that cannot
be read there is no object. -/
def statedError? : Json → Option (String × String)
  | .object members =>
    (Json.lastText? members "Code").map fun code =>
      (code, (Json.lastText? members "Message").getD "")
  | _ => none

/-- The code and the message of an object that can be read as a whole. -/
def readError? (j : Json) : Option (String × String) :=
  if j.readable Json.depthLimit then statedError? j else none

theorem reportedError?_some (j : Json) : reportedError? (some j) = readError? j := by
  rw [reportedError?, Option.bind_eq_bind, Option.bind_some, readError?]
  cases j.readable Json.depthLimit with
  | false => rfl
  | true =>
    cases j with
    | object members =>
      rw [statedError?, ← Json.get?_settled_bind_asText? members "Code",
        ← Json.get?_settled_bind_asText? members "Message"]
      dsimp only [Bool.not_true]
      cases (Json.object members).settled.get? "Code" with
      | none => rfl
      | some field => cases field <;> rfl
    | _ => rfl

theorem exists_statedError?_iff {j : Json} {code : String} :
    (∃ message, statedError? j = some (code, message)) ↔
      ∃ members, j = .object members ∧ members.reverse.lookup "Code" = some (.text code) := by
  cases j with
  | object members =>
    simp only [Json.object.injEq, exists_eq_left', statedError?, ← Json.lastText?_eq_some_iff]
    cases Json.lastText? members "Code" <;> simp
  | _ => simp [statedError?]

/-- A code is reported by the last member under its key of an object that can be read. -/
theorem exists_reportedError?_iff {body : Option Json} {code : String} :
    (∃ message, reportedError? body = some (code, message)) ↔
      ∃ members, body = some (.object members) ∧
        (Json.object members).readable Json.depthLimit = true ∧
          members.reverse.lookup "Code" = some (.text code) := by
  cases body with
  | none => simp [reportedError?]
  | some j =>
    simp only [reportedError?_some, readError?, Option.some.injEq]
    split
    next hreadable =>
      rw [exists_statedError?_iff]
      refine exists_congr fun members => and_congr_right ?_
      rintro rfl
      exact (and_iff_right hreadable).symm
    next hunreadable =>
      refine iff_of_false (by simp) ?_
      rintro ⟨members, rfl, hreadable, -⟩
      exact hunreadable hreadable

/-! ## Replies -/

/-- The reply says that the record is gone: its status does not speak for itself, and its body has
been read and is a JSON object with such a code. -/
def Reply.SaysGone (r : Reply) : Prop :=
  r.status ∉ [429, 502, 503, 504] ∧
    ∃ body members code, r.body = .ok body ∧ Json.parse? body = some (.object members) ∧
      (Json.object members).readable Json.depthLimit = true ∧
      members.reverse.lookup "Code" = some (.text code) ∧ code ∈ recordGoneCodes

/-- The reply grants a call a value: its status is none of an error, and its body has been read, is
JSON without a code, and has the form of the reply. -/
def Reply.Grants (r : Reply) (c : Call) (value : c.Reply) : Prop :=
  r.status < 400 ∧
    ∃ body j, r.body = .ok body ∧ Json.parse? body = some j ∧ reportedError? (some j) = none ∧
      c.readReply j = .ok value

theorem isNotFound_causeOf_iff (context : Context) (code message : String) :
    (causeOf context code message).isNotFound = true ↔ code ∈ recordGoneCodes := by
  have hcredentials : ∀ code ∈ credentialCodes, code ∉ recordGoneCodes := by decide
  have hexists : ∀ code ∈ recordExistsCodes, code ∉ recordGoneCodes := by decide
  unfold causeOf
  split
  · rename_i h
    simp [Cause.isNotFound, hcredentials code h]
  split
  · rename_i h
    simp [Cause.isNotFound, hexists code h]
  split
  · rename_i h
    simp [Cause.isNotFound, h]
  · rename_i h
    repeat' split
    all_goals simp [Cause.isNotFound, h]

/-- The cause is one that reading a body brings up: it has not the form of the reply, or the record
in it has a type that is not supported. -/
def IsOfReading : Cause → Prop
  | .malformedReply _ | .unsupportedType _ => True
  | _ => False

theorem isOfReading_orMalformed {α : Type} {a : Option α} {cause : Cause}
    (h : Call.readReply.orMalformed a = .error cause) : IsOfReading cause := by
  cases a with
  | some a => cases h
  | none =>
    obtain rfl := Except.error.inj h
    exact trivial

theorem isOfReading_orMalformed_bind {α β : Type} {a : Option α} {f : α → Except Cause β}
    {cause : Cause} (hf : ∀ a, f a = .error cause → IsOfReading cause)
    (h : (Call.readReply.orMalformed a >>= f) = .error cause) : IsOfReading cause := by
  cases a with
  | some a => exact hf a h
  | none =>
    obtain rfl := Except.error.inj h
    exact trivial

theorem isOfReading_readReply {c : Call} {j : Json} {cause : Cause}
    (h : c.readReply j = .error cause) : IsOfReading cause := by
  cases c with
  | listRecords domain query request =>
    refine isOfReading_orMalformed_bind (fun listing h => ?_) h
    cases listing
    cases h
  | listWeightedHosts domain host request =>
    refine isOfReading_orMalformed_bind (fun listing h => ?_) h
    cases listing
    cases h
  | describeRecord id =>
    refine isOfReading_orMalformed_bind (fun raw h => ?_) h
    cases hstored : raw.stored? "" with
    | some r =>
      rw [hstored] at h
      cases h
    | none =>
      rw [hstored] at h
      obtain rfl := Except.error.inj h
      exact trivial
  | addRecord r => exact isOfReading_orMalformed_bind (fun _ h => isOfReading_orMalformed h) h
  | _ => exact isOfReading_orMalformed h

theorem isNotFound_of_isOfReading {cause : Cause} (h : IsOfReading cause) :
    cause.isNotFound = false := by
  cases cause <;> first | rfl | exact h.elim

theorem mem_speaking_iff {status : Nat} :
    status ∈ [429, 502, 503, 504] ↔ status = 429 ∨ 502 ≤ status ∧ status ≤ 504 := by
  simp only [List.mem_cons, List.not_mem_nil, or_false]
  omega

theorem not_mem_speaking_of_lt {status : Nat} (h : status < 400) :
    status ∉ [429, 502, 503, 504] := by
  rw [mem_speaking_iff]
  omega

theorem Reply.saysGone_iff {r : Reply} {body : String} (hbody : r.body = .ok body) :
    r.SaysGone ↔ r.status ∉ [429, 502, 503, 504] ∧
      ∃ code message, reportedError? (Json.parse? body) = some (code, message) ∧
        code ∈ recordGoneCodes := by
  refine and_congr_right fun _ => ?_
  constructor
  · rintro ⟨body', members, code, hbody', hparse, hreadable, hcode, hgone⟩
    obtain rfl := Except.ok.inj (hbody'.symm.trans hbody)
    obtain ⟨message, hreport⟩ := exists_reportedError?_iff.mpr ⟨members, hparse, hreadable, hcode⟩
    exact ⟨code, message, hreport, hgone⟩
  · rintro ⟨code, message, hreport, hgone⟩
    obtain ⟨members, hparse, hreadable, hcode⟩ := exists_reportedError?_iff.mp ⟨message, hreport⟩
    exact ⟨body, members, code, hbody, hparse, hreadable, hcode, hgone⟩

/-- What a reply is taken for, by the first of its features that counts: a status that speaks for
itself, a body that was not read, a code in it, another status of an error, the form of the
body. -/
inductive Reply.Judged (r : Reply) (c : Call) : Except Cause c.Reply → Prop where
  | limited (hstatus : r.status = 429) :
      r.Judged c (.error (.rateLimited r.retryHint? (some r.bodyText)))
  | gateway (hlow : 502 ≤ r.status) (hhigh : r.status ≤ 504) :
      r.Judged c (.error (.network (r.summary r.bodyText)))
  | unread {detail : String} (hsilent : r.status ∉ [429, 502, 503, 504])
      (hbody : r.body = .error detail) :
      r.Judged c (.error (.network s!"Failed to read response body: {detail}"))
  | coded {body code message : String} (hsilent : r.status ∉ [429, 502, 503, 504])
      (hbody : r.body = .ok body)
      (hreport : reportedError? (Json.parse? body) = some (code, message)) :
      r.Judged c (.error (causeOf c.context code message))
  | broken {body : String} (hsilent : r.status ∉ [429, 502, 503, 504])
      (hbody : r.body = .ok body) (hreport : reportedError? (Json.parse? body) = none)
      (hstatus : 500 ≤ r.status) : r.Judged c (.error (.network (r.summary body)))
  | refused {body : String} (hbody : r.body = .ok body)
      (hreport : reportedError? (Json.parse? body) = none) (hlow : 400 ≤ r.status)
      (hhigh : r.status < 500) (hsilent : r.status ∉ [429, 502, 503, 504]) :
      r.Judged c (.error (.unknown none (r.summary body)))
  | unparsed {body : String} (hstatus : r.status < 400) (hbody : r.body = .ok body)
      (hparse : Json.parse? body = none) : r.Judged c (.error Call.malformed)
  | parsed {body : String} {j : Json} (hstatus : r.status < 400) (hbody : r.body = .ok body)
      (hparse : Json.parse? body = some j) (hreport : reportedError? (some j) = none) :
      r.Judged c (c.readReply j)

theorem Reply.judged_meaning (r : Reply) (c : Call) : r.Judged c (r.meaning c) := by
  unfold meaning
  split
  next h => exact .limited h
  next hlimited =>
  split
  next h => exact .gateway h.1 h.2
  next hgateway =>
  have hsilent : r.status ∉ [429, 502, 503, 504] := by
    rw [mem_speaking_iff, not_or]
    exact ⟨hlimited, hgateway⟩
  split
  next detail hbody => exact .unread hsilent hbody
  next body hbody =>
  dsimp only
  split
  next code message hreport => exact .coded hsilent hbody hreport
  next hreport =>
  split
  next hstatus => exact .broken hsilent hbody hreport hstatus
  next hhigh =>
  split
  next hlow => exact .refused hbody hreport hlow (by omega) hsilent
  next hstatus =>
  cases hparse : Json.parse? body with
  | none => exact .unparsed (by omega) hbody hparse
  | some j =>
    rw [hparse] at hreport
    exact .parsed (by omega) hbody hparse hreport

/-- A reply is taken to say that a record is gone exactly if it says so. -/
theorem Reply.isNotFound_meaning_iff (r : Reply) (c : Call) :
    (∃ cause, r.meaning c = .error cause ∧ cause.isNotFound = true) ↔ r.SaysGone := by
  have hjudged := r.judged_meaning c
  generalize r.meaning c = result at hjudged
  cases hjudged with
  | limited hstatus =>
    exact iff_of_false (by simp [Cause.isNotFound]) fun h => h.1 (by simp [hstatus])
  | gateway hlow hhigh =>
    exact iff_of_false (by simp [Cause.isNotFound]) fun h =>
      h.1 (mem_speaking_iff.mpr (.inr ⟨hlow, hhigh⟩))
  | unread hsilent hbody =>
    refine iff_of_false (by simp [Cause.isNotFound]) ?_
    rintro ⟨-, body, -, -, hbody', -⟩
    rw [hbody] at hbody'
    cases hbody'
  | coded hsilent hbody hreport =>
    rw [saysGone_iff hbody, hreport]
    simp [isNotFound_causeOf_iff, hsilent]
  | broken _ hbody hreport | refused hbody hreport =>
    rw [saysGone_iff hbody, hreport]
    simp [Cause.isNotFound]
  | unparsed hstatus hbody hparse =>
    rw [saysGone_iff hbody, hparse]
    simp [Cause.isNotFound, Call.malformed, reportedError?]
  | parsed hstatus hbody hparse hreport =>
    rw [saysGone_iff hbody, hparse, hreport]
    refine iff_of_false ?_ (by simp)
    rintro ⟨cause, hcause, hgone⟩
    rw [isNotFound_of_isOfReading (isOfReading_readReply hcause)] at hgone
    cases hgone

/-- A reply is taken for a value exactly if it grants that. -/
theorem Reply.meaning_eq_ok_iff (r : Reply) (c : Call) (value : c.Reply) :
    r.meaning c = .ok value ↔ r.Grants c value := by
  have hgrants : ∀ {body}, r.body = .ok body → (r.Grants c value ↔ r.status < 400 ∧
      ∃ j, Json.parse? body = some j ∧ reportedError? (some j) = none ∧
        c.readReply j = .ok value) := by
    intro body hbody
    simp [Grants, hbody]
  have hfailed : 400 ≤ r.status → ¬ r.Grants c value := fun hstatus h =>
    absurd h.1 (Nat.not_lt.mpr hstatus)
  have hjudged := r.judged_meaning c
  generalize r.meaning c = result at hjudged
  cases hjudged with
  | limited hstatus => exact iff_of_false (fun h => nomatch h) (hfailed (by omega))
  | gateway hlow hhigh => exact iff_of_false (fun h => nomatch h) (hfailed (by omega))
  | unread hsilent hbody => simp [Grants, hbody]
  | coded hsilent hbody hreport =>
    rw [hgrants hbody]
    refine iff_of_false (fun h => nomatch h) ?_
    rintro ⟨-, j, hparse, hnone, -⟩
    rw [hparse, hnone] at hreport
    cases hreport
  | broken hsilent hbody hreport hstatus =>
    exact iff_of_false (fun h => nomatch h) (hfailed (by omega))
  | refused hbody hreport hstatus => exact iff_of_false (fun h => nomatch h) (hfailed hstatus)
  | unparsed hstatus hbody hparse => simp [hgrants hbody, hparse]
  | parsed hstatus hbody hparse hreport => simp [hgrants hbody, hstatus, hparse, hreport]

/-! ## Deliveries -/

/-- A reply is delivered that says that the record is gone. -/
def Delivery.ReportsGone (d : Delivery) : Prop := ∃ r, d = .replied r ∧ r.SaysGone

/-- A reply is delivered that grants a call a value. -/
def Delivery.Grants (d : Delivery) (c : Call) (value : c.Reply) : Prop :=
  ∃ r, d = .replied r ∧ r.Grants c value

section

variable (d : Delivery) (c : Call)

theorem Delivery.exists_answer_failed (timedOut : Bool) (detail : String) :
    ∃ e, (Delivery.failed timedOut detail).answer c = .error e ∧ e.cause.isNotFound = false := by
  cases timedOut <;> exact ⟨_, rfl, rfl⟩

/-- A reply is answered with what it means. -/
theorem Delivery.answer_replied (r : Reply) :
    (∀ value, r.meaning c = .ok value → (Delivery.replied r).answer c = .ok value) ∧
      ∀ cause, r.meaning c = .error cause →
        (Delivery.replied r).answer c = .error ⟨provider, cause⟩ := by
  constructor <;>
  · intro result hmeaning
    rw [answer, hmeaning]
    rfl

/-- The error of a reply has the cause that the reply means. -/
theorem Delivery.exists_error_replied_iff (r : Reply) (p : Cause → Prop) :
    (∃ e, (Delivery.replied r).answer c = .error e ∧ p e.cause) ↔
      ∃ cause, r.meaning c = .error cause ∧ p cause := by
  cases hmeaning : r.meaning c with
  | ok value => simp [(answer_replied c r).1 value hmeaning]
  | error cause => simp [(answer_replied c r).2 cause hmeaning]

theorem Delivery.isNotFound_answer_iff :
    (∃ e, d.answer c = .error e ∧ e.cause.isNotFound = true) ↔ d.ReportsGone := by
  cases d with
  | failed timedOut detail =>
    obtain ⟨e, hanswer, hfound⟩ := Delivery.exists_answer_failed c timedOut detail
    refine iff_of_false ?_ (by rintro ⟨r, hr, -⟩; cases hr)
    rintro ⟨e', he, hgone⟩
    obtain rfl := Except.error.inj (hanswer.symm.trans he)
    rw [hfound] at hgone
    cases hgone
  | replied r =>
    have hreply : (Delivery.replied r).ReportsGone ↔ r.SaysGone := by
      simp [ReportsGone]
    rw [hreply, ← r.isNotFound_meaning_iff c]
    exact exists_error_replied_iff c r fun cause => cause.isNotFound = true

theorem Delivery.answer_eq_ok_iff (value : c.Reply) :
    d.answer c = .ok value ↔ d.Grants c value := by
  cases d with
  | failed timedOut detail =>
    obtain ⟨e, hanswer, -⟩ := Delivery.exists_answer_failed c timedOut detail
    simp [hanswer, Grants]
  | replied r =>
    have hreply : (Delivery.replied r).Grants c value ↔ r.Grants c value := by
      simp [Grants]
    rw [hreply, ← r.meaning_eq_ok_iff c value]
    cases hmeaning : r.meaning c with
    | ok value => simp [(answer_replied c r).1 value hmeaning]
    | error cause => simp [(answer_replied c r).2 cause hmeaning]

end

namespace Client

variable {τ : Type}

/-- The delivery after which the client sends the request for a call no more. -/
def lastDelivery (client : Client) (transport : Transport τ) (c : Call) (retries attempt : Nat)
    (t : τ) : Delivery :=
  let (delivery, t) := transport.send (client.request c (transport.stamp t)) t
  match retries, delivery.answer c with
  | retries + 1, .error e =>
    if e.cause.isRetryable then
      client.lastDelivery transport c retries (attempt + 1)
        (transport.wait (retryDelay e.cause attempt) t)
    else delivery
  | _, _ => delivery

/-- The last delivery decides what is answered. -/
theorem attempts_eq_answer (client : Client) (transport : Transport τ) (c : Call)
    (retries attempt : Nat) (t : τ) :
    (client.attempts transport c retries attempt t).1 =
      (client.lastDelivery transport c retries attempt t).answer c := by
  induction retries generalizing attempt t with
  | zero => rfl
  | succ retries ih =>
    unfold attempts lastDelivery sendOnce
    dsimp only
    cases hanswer : (transport.send (client.request c (transport.stamp t)) t).1.answer c with
    | ok value => exact hanswer.symm
    | error e =>
      dsimp only
      split
      · exact ih _ _
      · exact hanswer.symm

/-- The last delivery for a call that is made in a state of the transport. -/
def deliveryFor (client : Client) (transport : Transport τ) (c : Call) (t : τ) : Delivery :=
  client.lastDelivery transport c client.maxRetries.toNat 0 t

theorem answer_remote (client : Client) (transport : Transport τ) (c : Call) (t : τ) :
    ((client.remote transport).answer c t).1 = (client.deliveryFor transport c t).answer c :=
  client.attempts_eq_answer transport c _ _ t

end Client

/-- A client with some key. -/
def keyClient : Client := ⟨⟨"key", "secret"⟩, .standard, defaultRetries⟩

/-- A record of type A as the service reports it. -/
def recordText (id : String) : String :=
  "\x7b\"RecordId\":\"" ++ id ++ "\",\"RR\":\"www\",\"Type\":\"A\",\"Value\":\"192.0.2.1\"," ++
    "\"TTL\":600,\"Weight\":1\x7d"

end Wire

end WeightedDns
