import WeightedDns.Proofs.Wire.Classification

/-!
# Throttling

A service that is asked too often says so by a code that begins with `Throttling`. A reply with
such a code is heeded if it is taken for a passing error of a limit, and so is met by another
attempt while retries are left. That is the case exactly if the status of the reply speaks for
itself, or its body can be read as a whole and the code is one of the three that are known
(`throttling_heeded_iff`); any other code of throttling stays an unknown one and ends the call.
-/

namespace WeightedDns.Wire

/-! ## Codes -/

/-- The endings of the codes of throttling that are known. -/
def knownEndings : List String := ["", ".User", ".Api"]

theorem mem_throttlingCodes_iff {ending : String} :
    "Throttling" ++ ending ∈ throttlingCodes ↔ ending ∈ knownEndings := by
  have hcodes : throttlingCodes = knownEndings.map ("Throttling" ++ ·) := by decide
  have hinj : Function.Injective fun ending : String => "Throttling" ++ ending := by
    intro ending ending' h
    rw [← String.toList_inj] at h ⊢
    simpa using h
  rw [hcodes, List.mem_map_of_injective hinj]

/-- A code of throttling that is not known has no other meaning. -/
theorem causeOf_of_unknown_ending {ending : String} (h : ending ∉ knownEndings)
    (context : Context) (message : String) :
    causeOf context ("Throttling" ++ ending) message =
      .unknown (some ("Throttling" ++ ending)) message := by
  have hthrottling : "Throttling" ++ ending ∉ throttlingCodes := mt mem_throttlingCodes_iff.mp h
  have hbegins : "Throttling".toList <+: ("Throttling" ++ ending).toList := by
    rw [String.toList_append]
    exact List.prefix_append _ _
  generalize "Throttling" ++ ending = code at hbegins hthrottling
  have hother : ∀ other ∈ credentialCodes ++ recordExistsCodes ++ recordGoneCodes ++
      domainGoneCodes ++ quotaCodes ++ lockedCodes ++ forbiddenCodes ++ parameterCodes.map (·.1),
      ¬ "Throttling".toList <+: other.toList := by decide
  have hcode := mt (hother code) (not_not.mpr hbegins)
  simp only [List.mem_append, not_or] at hcode
  obtain ⟨⟨⟨⟨⟨⟨⟨hcredentials, hexists⟩, hgone⟩, hdomain⟩, hquota⟩, hlocked⟩, hforbidden⟩,
    hparameter⟩ := hcode
  have hlookup : parameterCodes.lookup code = none := by
    rw [List.lookup_eq_none_iff]
    intro p hp
    rw [bne_iff_ne]
    rintro rfl
    exact hparameter (List.mem_map_of_mem hp)
  simp only [causeOf, hcredentials, hexists, hgone, hdomain, hquota, hthrottling, hlocked,
    hforbidden, hlookup, if_false]

theorem isRetryable_iff_of_isOfCode {cause : Cause} (h : IsOfCode cause) :
    cause.isRetryable = true ↔ ∃ hint note, cause = .rateLimited hint note := by
  cases cause with
  | network detail => exact h.elim
  | timeout detail => exact h.elim
  | rateLimited hint note => exact iff_of_true rfl ⟨hint, note, rfl⟩
  | _ => simp [Cause.isRetryable]

/-! ## Replies -/

/-- The body of the reply is an object with a text under `Code`, the last one if there are more. -/
def Reply.States (r : Reply) (code : String) : Prop :=
  ∃ members, r.json? = some (.object members) ∧ members.reverse.lookup "Code" = some (.text code)

/-- The body of the reply is JSON that can be read as a whole. -/
def Reply.IsReadable (r : Reply) : Prop :=
  ∃ j, r.json? = some j ∧ j.readable Json.depthLimit = true

/-- What has been sent when a call over a sequence of deliveries has ended. -/
def Client.sentFor (client : Client) (c : Call) (deliveries : Nat → Delivery)
    (stamps : Nat → Stamp) : List Sent :=
  ((client.remote (Transport.playing deliveries stamps).watched).answer c ⟨0, 0, []⟩).2.sent

/-- A call takes the reply for a passing error, and for one of a limit unless its status is that of
a gateway; so it is met by another attempt while retries are left. -/
structure Reply.Heeded (r : Reply) (c : Call) : Prop where
  passing : (Delivery.replied r).IsPassing c
  limited : ¬ (502 ≤ r.status ∧ r.status ≤ 504) →
    ∃ hint note, (Delivery.replied r).answer c = .error ⟨provider, .rateLimited hint note⟩
  repeated : ∀ (client : Client) (deliveries : Nat → Delivery) (stamps : Nat → Stamp) (k : Nat),
    k < client.maxRetries.toNat → (∀ i < k, (deliveries i).IsPassing c) →
      deliveries k = .replied r → k + 1 < (client.sentFor c deliveries stamps).length

/-- An attempt is made exactly if retries are left for it and all before it have met a passing
error. -/
theorem Client.lt_length_sentFor_iff (client : Client) (c : Call) (deliveries : Nat → Delivery)
    (stamps : Nat → Stamp) (k : Nat) :
    k < (client.sentFor c deliveries stamps).length ↔
      k ≤ client.maxRetries.toNat ∧ ∀ i < k, (deliveries i).IsPassing c := by
  obtain ⟨last, -, hbound, hpassed, hstop, hrun⟩ :=
    client.exists_attempts_underway c deliveries stamps client.maxRetries.toNat 0
  rw [Nat.zero_add] at hbound hstop
  have hlength : (client.sentFor c deliveries stamps).length = last + 1 := by
    have hsent : client.sentFor c deliveries stamps =
        client.sentBefore c deliveries stamps (last + 1) :=
      congrArg (fun result => result.2.sent) hrun
    rw [hsent, sentBefore, List.length_map, List.length_range]
  rw [hlength, Nat.lt_succ_iff]
  constructor
  · intro hk
    exact ⟨hk.trans hbound, fun i hi => hpassed i (Nat.zero_le i) (hi.trans_le hk)⟩
  · rintro ⟨hk, hall⟩
    by_contra hlt
    rcases hstop with hlast | hstays
    · omega
    · exact hstays (hall last (by omega))

section

variable {r : Reply} {code : String}

theorem Reply.states_iff :
    r.States code ↔ ∃ message, r.errorBy statedError? = some (code, message) := by
  rw [States, errorBy]
  cases r.json? with
  | none => simp
  | some j => simp [exists_statedError?_iff]

instance (r : Reply) (code : String) : Decidable (r.States code) :=
  decidable_of_iff ((r.errorBy statedError?).any (·.1 == code) = true)
    (by simp [Reply.states_iff, Option.any_eq_true])

instance (r : Reply) : Decidable r.IsReadable :=
  decidable_of_iff (r.json?.any (·.readable Json.depthLimit) = true)
    (by simp [Reply.IsReadable, Option.any_eq_true])

/-- A code in a body that can be read as a whole is that of an error. -/
theorem Reply.States.exists_errorBy (h : r.States code) (hread : r.IsReadable) :
    ∃ message, r.errorBy readError? = some (code, message) := by
  obtain ⟨message, herror⟩ := Reply.states_iff.mp h
  obtain ⟨j, hjson, hreadable⟩ := hread
  rw [errorBy, hjson, Option.bind_some] at herror ⊢
  rw [readError?, if_pos hreadable]
  exact ⟨message, herror⟩

/-- A code in a body that cannot be read as a whole is not reported. -/
theorem Reply.States.exists_unreported (h : r.States code) (hunread : ¬ r.IsReadable) :
    ∃ body, r.body = .ok body ∧ reportedError? (Json.parse? body) = none := by
  obtain ⟨members, hjson, -⟩ := h
  obtain ⟨body, hbody, hparse⟩ := Reply.json?_eq_some_iff.mp hjson
  refine ⟨body, hbody, ?_⟩
  rw [hparse]
  refine reportedError?_of_unreadable (Bool.eq_false_iff.mpr fun hreadable => ?_)
  exact hunread ⟨_, hjson, hreadable⟩

end

/-- A passing error of a limit is heeded. -/
theorem Reply.heeded_of_meaning {r : Reply} {c : Call} {cause : Cause}
    (hmeaning : r.meaning c = .error cause) (hretry : cause.isRetryable = true)
    (hlimited : ¬ (502 ≤ r.status ∧ r.status ≤ 504) → ∃ hint note, cause = .rateLimited hint note) :
    r.Heeded c := by
  have hanswer := (Delivery.answer_replied c r).2 cause hmeaning
  have hpassing : (Delivery.replied r).IsPassing c := ⟨_, hanswer, hretry⟩
  refine ⟨hpassing, ?_, ?_⟩
  · intro hstatus
    obtain ⟨hint, note, rfl⟩ := hlimited hstatus
    exact ⟨hint, note, hanswer⟩
  · intro client deliveries stamps k hk hbefore hreply
    rw [client.lt_length_sentFor_iff]
    refine ⟨hk, fun i hi => ?_⟩
    rcases Nat.lt_succ_iff_lt_or_eq.mp hi with hlt | rfl
    · exact hbefore i hlt
    · rw [hreply]
      exact hpassing

theorem Reply.heeded_of_speaking {r : Reply} (hspeaks : r.status ∈ [429, 502, 503, 504])
    (c : Call) : r.Heeded c := by
  refine heeded_of_meaning (r.meaning_of_speaking hspeaks c) ?_ fun hstatus => ?_
  · split <;> rfl
  · rw [if_pos ((mem_speaking_iff.mp hspeaks).resolve_right hstatus)]
    exact ⟨_, _, rfl⟩

theorem Reply.States.heeded {r : Reply} {code : String} (h : r.States code) (hread : r.IsReadable)
    (hcode : code ∈ throttlingCodes) (c : Call) : r.Heeded c := by
  by_cases hspeaks : r.status ∈ [429, 502, 503, 504]
  · exact heeded_of_speaking hspeaks c
  · obtain ⟨message, herror⟩ := h.exists_errorBy hread
    have hretry := (isRetryable_causeOf_iff c.context code message).mpr hcode
    exact heeded_of_meaning (r.meaning_of_readError hspeaks herror c) hretry fun _ =>
      (isRetryable_iff_of_isOfCode (isOfCode_causeOf _ _ _)).mp hretry

/-- A reply that is heeded has a status that speaks for itself, or a body that can be read. -/
theorem Reply.Heeded.isReadable {r : Reply} {c : Call} {code : String} (h : r.Heeded c)
    (hstates : r.States code) (hsilent : r.status ∉ [429, 502, 503, 504]) : r.IsReadable := by
  have hstatus : ¬ r.status = 429 ∧ ¬ (502 ≤ r.status ∧ r.status ≤ 504) := by
    rwa [mem_speaking_iff, not_or] at hsilent
  obtain ⟨hint, note, hanswer⟩ := h.limited hstatus.2
  obtain ⟨cause, hmeaning, rfl⟩ := (Delivery.exists_error_replied_iff c r
    fun cause => cause = .rateLimited hint note).mp ⟨_, hanswer, rfl⟩
  by_contra hunread
  obtain ⟨body, hbody, hreport⟩ := hstates.exists_unreported hunread
  cases hint with
  | none =>
    have hcode : IsOfCode (.rateLimited none note) := trivial
    exact r.meaning_ne_of_unreported hbody hreport hsilent c hcode hmeaning
  | some seconds =>
    -- a hint comes with status 429 only
    exact hstatus.1 ((r.hint?_meaning_iff c seconds).mp ⟨_, hmeaning, rfl⟩).1

/-- A code of throttling that is not known makes an unknown error, where nothing else decides. -/
theorem Reply.States.exists_answer_unknown {r : Reply} {ending : String}
    (h : r.States ("Throttling" ++ ending)) (hsilent : r.status ∉ [429, 502, 503, 504])
    (hread : r.IsReadable) (hending : ending ∉ knownEndings) (c : Call) :
    ∃ message, (Delivery.replied r).answer c =
      .error ⟨provider, .unknown (some ("Throttling" ++ ending)) message⟩ := by
  obtain ⟨message, herror⟩ := h.exists_errorBy hread
  have hmeaning := r.meaning_of_readError hsilent herror c
  rw [causeOf_of_unknown_ending hending] at hmeaning
  exact ⟨message, (Delivery.answer_replied c r).2 _ hmeaning⟩

theorem Reply.not_heeded_of_unknown {r : Reply} {c : Call} {code : Option String}
    {message : String}
    (h : (Delivery.replied r).answer c = .error ⟨provider, .unknown code message⟩) :
    ¬ r.Heeded c := by
  intro hheeded
  obtain ⟨e, he, hretry⟩ := hheeded.passing
  obtain rfl := Except.error.inj (h.symm.trans he)
  cases hretry

/-- A reply with a code of throttling is heeded exactly if its status speaks for itself, or its body
can be read as a whole and the code is one of those that are known. Any other such code stays an
unknown one, which ends the call. -/
theorem throttling_heeded_iff (r : Reply) (c : Call) (ending : String)
    (hstates : r.States ("Throttling" ++ ending)) :
    (r.Heeded c ↔ r.status ∈ [429, 502, 503, 504] ∨
      r.IsReadable ∧ ending ∈ ["", ".User", ".Api"]) ∧
    (r.status ∉ [429, 502, 503, 504] → r.IsReadable → ending ∉ ["", ".User", ".Api"] →
      ∃ message, (Delivery.replied r).answer c =
        .error ⟨provider, .unknown (some ("Throttling" ++ ending)) message⟩) := by
  refine ⟨⟨fun h => ?_, ?_⟩, fun hsilent hread hending =>
    hstates.exists_answer_unknown hsilent hread hending c⟩
  · by_contra hneither
    obtain ⟨hsilent, hother⟩ := not_or.mp hneither
    have hread := h.isReadable hstates hsilent
    obtain ⟨message, hanswer⟩ :=
      hstates.exists_answer_unknown hsilent hread (fun hknown => hother ⟨hread, hknown⟩) c
    exact Reply.not_heeded_of_unknown hanswer h
  · rintro (hspeaks | ⟨hread, hknown⟩)
    · exact Reply.heeded_of_speaking hspeaks c
    · exact hstates.heeded hread (mem_throttlingCodes_iff.mpr hknown) c

/-- A refusal with status 400 and a code. -/
def refusal (code : String) : Reply :=
  ⟨400, none, .ok ("\x7b\"Code\":\"" ++ code ++ "\",\"Message\":\"slow down\"\x7d")⟩

theorem refused_user_heeded : (refusal "Throttling.User").States ("Throttling" ++ ".User") ∧
    (refusal "Throttling.User").Heeded (.deleteRecord "7") := by
  have hstates : (refusal "Throttling.User").States ("Throttling" ++ ".User") := by decide +kernel
  have hread : (refusal "Throttling.User").IsReadable := by decide +kernel
  obtain ⟨hheeded, -⟩ := throttling_heeded_iff _ (.deleteRecord "7") ".User" hstates
  exact ⟨hstates, hheeded.mpr (.inr ⟨hread, by decide⟩)⟩

/-- A code of throttling can end a call. -/
theorem not_always_heeded : (refusal "Throttling.System").States ("Throttling" ++ ".System") ∧
    ¬ (refusal "Throttling.System").Heeded (.deleteRecord "7") := by
  have hstates : (refusal "Throttling.System").States ("Throttling" ++ ".System") := by
    decide +kernel
  have hread : (refusal "Throttling.System").IsReadable := by decide +kernel
  obtain ⟨message, hanswer⟩ :=
    hstates.exists_answer_unknown (by decide) hread (by decide) (.deleteRecord "7")
  exact ⟨hstates, Reply.not_heeded_of_unknown hanswer⟩

end WeightedDns.Wire
