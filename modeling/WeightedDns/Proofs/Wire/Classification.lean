import WeightedDns.Proofs.Wire.Delivery
import WeightedDns.Proofs.Wire.Retry

/-!
# How deliveries are classified

Every delivery is a success or one of the errors of the client, and an error may be worth another
attempt or carry a hint when to come back. `Delivery.ClassifiedBy` says which, for a way of finding
an error in a body. Deliveries are classified by the errors in bodies that can be read as a whole,
and so by all errors in bodies unless something that cannot be read conceals the error
(`classified_iff`).
-/

namespace WeightedDns.Wire

/-! ## Errors in bodies -/

theorem reportedError?_of_unreadable {j : Json} (h : j.readable Json.depthLimit = false) :
    reportedError? (some j) = none := by
  rw [reportedError?_some, readError?, h]
  rfl

/-- The body of a reply, if it has been read and is JSON. -/
def Reply.json? (r : Reply) : Option Json := r.body.toOption.bind Json.parse?

theorem Reply.json?_of_ok {r : Reply} {body : String} (hbody : r.body = .ok body) :
    r.json? = Json.parse? body := by
  rw [json?, hbody]
  rfl

theorem Reply.json?_eq_some_iff {r : Reply} {j : Json} :
    r.json? = some j ↔ ∃ body, r.body = .ok body ∧ Json.parse? body = some j := by
  cases hbody : r.body with
  | error detail => simp [json?, hbody, Except.toOption]
  | ok body => simp [json?_of_ok hbody]

/-- The error in the body of a reply. -/
def Reply.errorBy (error? : Json → Option (String × String)) (r : Reply) :
    Option (String × String) :=
  r.json?.bind error?

theorem Reply.errorBy_readError? {r : Reply} {body : String} (hbody : r.body = .ok body) :
    r.errorBy readError? = reportedError? (Json.parse? body) := by
  rw [errorBy, json?_of_ok hbody]
  cases Json.parse? body with
  | none => rfl
  | some j => exact (reportedError?_some j).symm

/-! ## Hints -/

/-- The number that digits stand for, up to 64 bits. -/
def digitsNumber? (digits : List Char) : Option UInt64 :=
  if digits.isEmpty || !digits.all Char.isDigit then none
  else
    let n := digits.foldl (fun n c => n * 10 + (c.toNat - '0'.toNat)) 0
    if n < UInt64.size then some (UInt64.ofNat n) else none

theorem digitsNumber?_eq_some_iff {digits : List Char} {n : UInt64} :
    digitsNumber? digits = some n ↔
      digits ≠ [] ∧ (∀ c ∈ digits, c.isDigit = true) ∧ n.toNat = Nat.ofDigitChars 10 digits 0 := by
  have hvalue : digits.foldl (fun n c => n * 10 + (c.toNat - '0'.toNat)) 0 =
      Nat.ofDigitChars 10 digits 0 := by
    simp only [Nat.ofDigitChars_eq_foldl, Nat.mul_comm]
  have hbound : n.toNat < UInt64.size := n.toNat_lt_size
  have hdigits : (digits.isEmpty || !digits.all Char.isDigit) = true ↔
      ¬ (digits ≠ [] ∧ ∀ c ∈ digits, c.isDigit = true) := by
    simp [or_iff_not_imp_left]
  rw [digitsNumber?, hvalue, ← and_assoc]
  dsimp only
  split
  next h => exact iff_of_false (fun h => nomatch h) fun hall => hdigits.mp h hall.1
  next h =>
  rw [and_iff_right (not_not.mp (mt hdigits.mpr h))]
  split
  next hlt => rw [Option.some_inj, ← UInt64.toNat_inj, UInt64.toNat_ofNat_of_lt' hlt, eq_comm]
  next hge => exact iff_of_false (fun h => nomatch h) fun heq => hge (heq ▸ hbound)

/-- The text is a number in decimal digits, perhaps behind a plus sign. -/
def IsNumeral (s : String) (n : Nat) : Prop :=
  ∃ digits : List Char, (s.toList = digits ∨ s.toList = '+' :: digits) ∧ digits ≠ [] ∧
    (∀ c ∈ digits, c.isDigit = true) ∧ n = Nat.ofDigitChars 10 digits 0

theorem headerNumber?_of_sign {s : String} {digits : List Char} (h : s.toList = '+' :: digits) :
    headerNumber? s = digitsNumber? digits := by
  rw [headerNumber?, h]
  rfl

theorem headerNumber?_of_no_sign {s : String} (h : ∀ digits, s.toList ≠ '+' :: digits) :
    headerNumber? s = digitsNumber? s.toList := by
  rw [headerNumber?]
  split
  next digits hs => exact (h digits hs).elim
  next => rfl

theorem headerNumber?_eq_some_iff {s : String} {n : UInt64} :
    headerNumber? s = some n ↔ IsNumeral s n.toNat := by
  rw [IsNumeral]
  simp only [← digitsNumber?_eq_some_iff]
  by_cases hsign : ∃ digits, s.toList = '+' :: digits
  · obtain ⟨rest, hs⟩ := hsign
    -- a plus sign is no digit
    have hplus : digitsNumber? ('+' :: rest) ≠ some n := by
      rw [Ne, digitsNumber?_eq_some_iff]
      exact fun h => absurd (h.2.1 '+' List.mem_cons_self) (by decide)
    rw [headerNumber?_of_sign hs]
    simp [hs, or_and_right, exists_or, hplus]
  · rw [headerNumber?_of_no_sign fun digits hs => hsign ⟨digits, hs⟩]
    refine ⟨fun h => ⟨_, .inl rfl, h⟩, ?_⟩
    rintro ⟨digits, rfl | hs, h⟩
    · exact h
    · exact (hsign ⟨digits, hs⟩).elim

theorem IsNumeral.isHeaderChar {s : String} {n : Nat} (h : IsNumeral s n) :
    s.toList.all isHeaderChar = true := by
  have hdigit : ∀ c : Char, c.isDigit = true → Wire.isHeaderChar c = true := by
    intro c hc
    simp only [Char.isDigit, Bool.and_eq_true, decide_eq_true_eq, ge_iff_le,
      UInt32.le_iff_toNat_le] at hc
    simp only [Wire.isHeaderChar, Bool.or_eq_true, Bool.and_eq_true, decide_eq_true_eq]
    have hlow : 48 ≤ c.toNat := hc.1
    have hhigh : c.toNat ≤ 57 := hc.2
    omega
  rw [List.all_eq_true]
  obtain ⟨digits, hs, -, hdigits, -⟩ := h
  rcases hs with hs | hs <;> rw [hs]
  · exact fun c hc => hdigit c (hdigits c hc)
  · rw [List.forall_mem_cons]
    exact ⟨by decide, fun c hc => hdigit c (hdigits c hc)⟩

theorem Reply.retryHint?_eq_some_iff {r : Reply} {seconds : UInt64} :
    r.retryHint? = some seconds ↔
      ∃ text, r.retryAfter = some text ∧ IsNumeral text seconds.toNat := by
  rw [retryHint?, Option.bind_eq_some_iff]
  refine exists_congr fun text => and_congr_right fun _ => ?_
  constructor
  · intro h
    split at h
    · exact headerNumber?_eq_some_iff.mp h
    · cases h
  · intro h
    rw [if_pos h.isHeaderChar]
    exact headerNumber?_eq_some_iff.mpr h

/-! ## Causes of codes -/

/-- The cause is one that a code can stand for. -/
def IsOfCode : Cause → Prop
  | .network _ | .timeout _ | .unsupportedType _ | .malformedReply _ | .unencodableRequest _
  | .unknown none _ | .rateLimited (some _) _ => False
  | _ => True

section

variable (context : Context) (code message : String)

theorem isOfCode_causeOf : IsOfCode (causeOf context code message) := by
  unfold causeOf
  repeat' split
  all_goals exact trivial

theorem isRetryable_causeOf_iff :
    (causeOf context code message).isRetryable = true ↔ code ∈ throttlingCodes := by
  by_cases hcode : code ∈ throttlingCodes
  · have hother : ∀ code ∈ throttlingCodes, code ∉ credentialCodes ∧ code ∉ recordExistsCodes ∧
        code ∉ recordGoneCodes ∧ code ∉ domainGoneCodes ∧ code ∉ quotaCodes := by decide
    obtain ⟨hcredentials, hexists, hgone, hdomain, hquota⟩ := hother code hcode
    simp [causeOf, hcredentials, hexists, hgone, hdomain, hquota, hcode, Cause.isRetryable]
  · simp only [causeOf, hcode, if_false, iff_false]
    repeat' split
    all_goals simp [Cause.isRetryable]

end

theorem hint?_of_isOfCode {cause : Cause} (h : IsOfCode cause) : hint? cause = none := by
  cases cause with
  | rateLimited seconds note =>
    cases seconds with
    | none => rfl
    | some seconds => exact h.elim
  | _ => rfl

theorem hint?_of_isOfReading {cause : Cause} (h : IsOfReading cause) : hint? cause = none := by
  cases cause <;> first | rfl | exact h.elim

theorem isRetryable_of_isOfReading {cause : Cause} (h : IsOfReading cause) :
    cause.isRetryable = false := by
  cases cause <;> first | rfl | exact h.elim

theorem not_isOfReading_of_isOfCode {cause : Cause} (h : IsOfCode cause) :
    ¬ IsOfReading cause := by
  cases cause <;> first | exact h.elim | exact id

/-! ## Replies -/

/-- The reply is worth another attempt: its status is one of a limit or a gateway, its body was not
read, the service failed without an error in the body, or the error is one of throttling. -/
def Reply.Passes (error? : Json → Option (String × String)) (r : Reply) : Prop :=
  r.status ∈ [429, 502, 503, 504] ∨ (∃ detail, r.body = .error detail) ∨
    (500 ≤ r.status ∧ r.errorBy error? = none) ∨
    ∃ code message, r.errorBy error? = some (code, message) ∧ code ∈ throttlingCodes

theorem Reply.isRetryable_meaning_iff (r : Reply) (c : Call) :
    (∃ cause, r.meaning c = .error cause ∧ cause.isRetryable = true) ↔ r.Passes readError? := by
  have hread : ∀ {body}, r.body = .ok body → r.status ∉ [429, 502, 503, 504] →
      (r.Passes readError? ↔ 500 ≤ r.status ∧ reportedError? (Json.parse? body) = none ∨
        ∃ code message, reportedError? (Json.parse? body) = some (code, message) ∧
          code ∈ throttlingCodes) := by
    intro body hbody hsilent
    have hunread : ¬ ∃ detail, r.body = .error detail := by simp [hbody]
    rw [Passes, errorBy_readError? hbody, or_iff_right hsilent, or_iff_right hunread]
  have hjudged := r.judged_meaning c
  generalize r.meaning c = result at hjudged
  cases hjudged with
  | limited hstatus =>
    exact iff_of_true ⟨_, rfl, rfl⟩ (.inl (mem_speaking_iff.mpr (.inl hstatus)))
  | gateway hlow hhigh =>
    exact iff_of_true ⟨_, rfl, rfl⟩ (.inl (mem_speaking_iff.mpr (.inr ⟨hlow, hhigh⟩)))
  | unread hsilent hbody => exact iff_of_true ⟨_, rfl, rfl⟩ (.inr (.inl ⟨_, hbody⟩))
  | coded hsilent hbody hreport =>
    rw [hread hbody hsilent, hreport]
    simp [isRetryable_causeOf_iff]
  | broken hsilent hbody hreport hstatus =>
    rw [hread hbody hsilent]
    exact iff_of_true ⟨_, rfl, rfl⟩ (.inl ⟨hstatus, hreport⟩)
  | refused hbody hreport hlow hhigh hsilent =>
    rw [hread hbody hsilent, hreport]
    simp [Cause.isRetryable, Nat.not_le.mpr hhigh]
  | unparsed hstatus hbody hparse =>
    rw [hread hbody (not_mem_speaking_of_lt hstatus), hparse]
    have hhigh : ¬ 500 ≤ r.status := by omega
    simp [Cause.isRetryable, Call.malformed, hhigh, reportedError?]
  | parsed hstatus hbody hparse hreport =>
    rw [hread hbody (not_mem_speaking_of_lt hstatus), hparse, hreport]
    refine iff_of_false ?_ ?_
    · rintro ⟨cause, hcause, hretry⟩
      rw [isRetryable_of_isOfReading (isOfReading_readReply hcause)] at hretry
      cases hretry
    · have hhigh : ¬ 500 ≤ r.status := by omega
      simp [hhigh]

/-- Only a reply with status 429 gives a hint. -/
theorem Reply.hint?_meaning_iff (r : Reply) (c : Call) (seconds : UInt64) :
    (∃ cause, r.meaning c = .error cause ∧ hint? cause = some seconds) ↔
      r.status = 429 ∧ r.retryHint? = some seconds := by
  have hother : r.status ≠ 429 → ¬ (r.status = 429 ∧ r.retryHint? = some seconds) := mt And.left
  have hsilent429 : r.status ∉ [429, 502, 503, 504] → r.status ≠ 429 := fun hsilent hstatus =>
    hsilent (mem_speaking_iff.mpr (.inl hstatus))
  have hjudged := r.judged_meaning c
  generalize r.meaning c = result at hjudged
  cases hjudged with
  | limited hstatus => simp [hint?, hstatus]
  | gateway hlow hhigh => exact iff_of_false (by simp [hint?]) (hother (by omega))
  | unread hsilent hbody =>
    exact iff_of_false (by simp [hint?]) (hother (hsilent429 hsilent))
  | coded hsilent hbody hreport =>
    refine iff_of_false ?_ (hother (hsilent429 hsilent))
    simp [hint?_of_isOfCode (isOfCode_causeOf _ _ _)]
  | broken hsilent hbody hreport hstatus =>
    exact iff_of_false (by simp [hint?]) (hother (hsilent429 hsilent))
  | refused hbody hreport hlow hhigh hsilent =>
    exact iff_of_false (by simp [hint?]) (hother (hsilent429 hsilent))
  | unparsed hstatus hbody hparse =>
    exact iff_of_false (by simp [hint?, Call.malformed]) (hother (by omega))
  | parsed hstatus hbody hparse hreport =>
    refine iff_of_false ?_ (hother (by omega))
    rintro ⟨cause, hcause, hhint⟩
    rw [hint?_of_isOfReading (isOfReading_readReply hcause)] at hhint
    cases hhint

/-- A status that speaks for itself decides alone. -/
theorem Reply.meaning_of_speaking {r : Reply} (h : r.status ∈ [429, 502, 503, 504]) (c : Call) :
    r.meaning c = .error (if r.status = 429 then .rateLimited r.retryHint? (some r.bodyText)
      else .network (r.summary r.bodyText)) := by
  rw [mem_speaking_iff] at h
  unfold meaning
  split
  next hlimited => rfl
  next hlimited => rw [if_pos (h.resolve_left hlimited)]

/-- An error in a body that can be read as a whole is the error of the call. -/
theorem Reply.meaning_of_readError {r : Reply} (hsilent : r.status ∉ [429, 502, 503, 504])
    {code message : String} (herror : r.errorBy readError? = some (code, message)) (c : Call) :
    r.meaning c = .error (causeOf c.context code message) := by
  cases hbody : r.body with
  | error detail => simp [errorBy, json?, hbody, Except.toOption] at herror
  | ok body =>
    rw [errorBy_readError? hbody] at herror
    rw [mem_speaking_iff, not_or] at hsilent
    rw [meaning, if_neg hsilent.1, if_neg hsilent.2, hbody]
    dsimp only
    rw [herror]

/-- Where no error in the body is reported, the error of the call is none that a code stands for. -/
theorem Reply.meaning_ne_of_unreported {r : Reply} {body : String} (hbody : r.body = .ok body)
    (hreport : reportedError? (Json.parse? body) = none) (hsilent : r.status ∉ [429, 502, 503, 504])
    (c : Call) {cause : Cause} (hcode : IsOfCode cause) : r.meaning c ≠ .error cause := by
  intro hmeaning
  have hjudged := r.judged_meaning c
  rw [hmeaning] at hjudged
  generalize hresult : (Except.error cause : Except Cause c.Reply) = result at hjudged
  cases hjudged with
  | limited hstatus => exact hsilent (mem_speaking_iff.mpr (.inl hstatus))
  | gateway hlow hhigh => exact hsilent (mem_speaking_iff.mpr (.inr ⟨hlow, hhigh⟩))
  | unread _ hbody' =>
    rw [hbody] at hbody'
    cases hbody'
  | coded _ hbody' hreport' =>
    obtain rfl := Except.ok.inj (hbody.symm.trans hbody')
    rw [hreport] at hreport'
    cases hreport'
  | broken | refused | unparsed =>
    obtain rfl := Except.error.inj hresult
    exact hcode
  | parsed =>
    exact not_isOfReading_of_isOfCode hcode (isOfReading_readReply hresult.symm)

/-! ## Deliveries -/

/-- How a delivery is taken for a call, where `error?` finds the code and the message of an error in
a body. -/
structure Delivery.ClassifiedBy (error? : Json → Option (String × String)) (d : Delivery)
    (c : Call) : Prop where
  /-- A value comes only of a body that is JSON without an error, and has the form of the reply. -/
  success : ∀ value, d.answer c = .ok value ↔
    ∃ r body j, d = .replied r ∧ r.status < 400 ∧ r.body = .ok body ∧
      Json.parse? body = some j ∧ error? j = none ∧ c.readReply j = .ok value
  /-- Four statuses speak for themselves. -/
  speaking : ∀ r, d = .replied r → r.status ∈ [429, 502, 503, 504] →
    d.answer c = .error ⟨provider, if r.status = 429 then
      .rateLimited r.retryHint? (some r.bodyText) else .network (r.summary r.bodyText)⟩
  /-- With any other status an error in the body is the error of the call. -/
  coded : ∀ r code message, d = .replied r → r.status ∉ [429, 502, 503, 504] →
    r.errorBy error? = some (code, message) →
      d.answer c = .error ⟨provider, causeOf c.context code message⟩
  passing : d.IsPassing c ↔
    (∃ timedOut detail, d = .failed timedOut detail) ∨ ∃ r, d = .replied r ∧ r.Passes error?
  /-- Hints are whole numbers in a header of a reply with status 429. -/
  hint : ∀ seconds, (∃ e, d.answer c = .error e ∧ hint? e.cause = some seconds) ↔
    ∃ r text, d = .replied r ∧ r.status = 429 ∧ r.retryAfter = some text ∧
      IsNumeral text seconds.toNat

theorem Delivery.classifiedBy_readError? (d : Delivery) (c : Call) :
    d.ClassifiedBy readError? c where
  success value := by
    rw [answer_eq_ok_iff]
    constructor
    · rintro ⟨r, hr, hstatus, body, j, hbody, hparse, hreport, hread⟩
      exact ⟨r, body, j, hr, hstatus, hbody, hparse, reportedError?_some j ▸ hreport, hread⟩
    · rintro ⟨r, body, j, hr, hstatus, hbody, hparse, hreport, hread⟩
      exact ⟨r, hr, hstatus, body, j, hbody, hparse, reportedError?_some j ▸ hreport, hread⟩
  speaking := by
    rintro r rfl hspeaks
    exact (answer_replied c r).2 _ (r.meaning_of_speaking hspeaks c)
  coded := by
    rintro r code message rfl hsilent herror
    exact (answer_replied c r).2 _ (r.meaning_of_readError hsilent herror c)
  passing := by
    cases d with
    | failed timedOut detail =>
      refine iff_of_true ?_ (.inl ⟨timedOut, detail, rfl⟩)
      cases timedOut <;> exact ⟨_, rfl, rfl⟩
    | replied r =>
      rw [IsPassing, exists_error_replied_iff c r fun cause => cause.isRetryable = true,
        r.isRetryable_meaning_iff]
      simp
  hint seconds := by
    cases d with
    | failed timedOut detail =>
      refine iff_of_false ?_ (by simp)
      cases timedOut <;> simp [answer, hint?, Except.mapError]
    | replied r =>
      rw [exists_error_replied_iff c r fun cause => hint? cause = some seconds,
        r.hint?_meaning_iff, Reply.retryHint?_eq_some_iff]
      simp

/-- The body states an error that is not reported, since something else in the body cannot be
read. -/
def Reply.Conceals (r : Reply) : Prop :=
  r.status ∉ [429, 502, 503, 504] ∧ ∃ j, r.json? = some j ∧ (statedError? j).isSome = true ∧
    j.readable Json.depthLimit = false

/-- The delivery is a reply that conceals an error. -/
def Delivery.Conceals (d : Delivery) : Prop := ∃ r, d = .replied r ∧ r.Conceals

theorem Delivery.not_classifiedBy_of_conceals {d : Delivery} (h : d.Conceals) (c : Call) :
    ¬ d.ClassifiedBy statedError? c := by
  obtain ⟨r, rfl, hsilent, j, hjson, hstated, hunreadable⟩ := h
  obtain ⟨body, hbody, hparse⟩ := Reply.json?_eq_some_iff.mp hjson
  obtain ⟨⟨code, message⟩, herror⟩ := Option.isSome_iff_exists.mp hstated
  have hreport : reportedError? (Json.parse? body) = none := by
    rw [hparse, reportedError?_of_unreadable hunreadable]
  have herrorBy : r.errorBy statedError? = some (code, message) := by
    rw [Reply.errorBy, hjson]
    exact herror
  intro hclassified
  have hanswer := hclassified.coded r code message rfl hsilent herrorBy
  cases hmeaning : r.meaning c with
  | ok value =>
    rw [(answer_replied c r).1 value hmeaning] at hanswer
    cases hanswer
  | error cause =>
    rw [(answer_replied c r).2 cause hmeaning] at hanswer
    obtain rfl : cause = causeOf c.context code message :=
      congrArg ServiceError.cause (Except.error.inj hanswer)
    exact r.meaning_ne_of_unreported hbody hreport hsilent c (isOfCode_causeOf _ _ _) hmeaning

/-- Ways of finding errors that agree on the body of a reply whose status does not speak for itself
classify it in the same way. -/
theorem Delivery.ClassifiedBy.congr {error? error?' : Json → Option (String × String)}
    {d : Delivery} {c : Call} (h : d.ClassifiedBy error? c)
    (hagree : ∀ r, d = .replied r → r.status ∉ [429, 502, 503, 504] → ∀ j, r.json? = some j →
      error? j = error?' j) :
    d.ClassifiedBy error?' c := by
  have herrorBy : ∀ r, d = .replied r → r.status ∉ [429, 502, 503, 504] →
      r.errorBy error? = r.errorBy error?' := fun r hr hsilent =>
    Option.bind_congr (hagree r hr hsilent)
  have hpasses : ∀ r, d = .replied r → (r.Passes error? ↔ r.Passes error?') := by
    intro r hr
    by_cases hsilent : r.status ∈ [429, 502, 503, 504]
    · exact iff_of_true (.inl hsilent) (.inl hsilent)
    · rw [Reply.Passes, Reply.Passes, herrorBy r hr hsilent]
  refine ⟨fun value => (h.success value).trans ?_, h.speaking, ?_, h.passing.trans ?_, h.hint⟩
  · refine exists_congr fun r => exists_congr fun body => exists_congr fun j =>
      and_congr_right fun hr => and_congr_right fun hstatus => and_congr_right fun hbody =>
        and_congr_right fun hparse => ?_
    rw [hagree r hr (not_mem_speaking_of_lt hstatus) j
      (Reply.json?_eq_some_iff.mpr ⟨body, hbody, hparse⟩)]
  · intro r code message hr hsilent herror
    exact h.coded r code message hr hsilent (herrorBy r hr hsilent ▸ herror)
  · exact or_congr_right (exists_congr fun r => and_congr_right (hpasses r))

/-- Every delivery is classified by the errors in bodies that can be read as a whole; it is
classified by all errors in bodies exactly if it conceals none. -/
theorem classified_iff (d : Delivery) (c : Call) :
    d.ClassifiedBy readError? c ∧ (d.ClassifiedBy statedError? c ↔ ¬ d.Conceals) := by
  refine ⟨d.classifiedBy_readError? c, ⟨fun h hconceals => ?_, fun h => ?_⟩⟩
  · exact Delivery.not_classifiedBy_of_conceals hconceals c h
  · refine (d.classifiedBy_readError? c).congr fun r hr hsilent j hjson => ?_
    rw [readError?]
    split
    next => rfl
    next hunreadable =>
    -- what cannot be read states no error
    by_contra hstated
    exact h ⟨r, hr, hsilent, j, hjson, Option.ne_none_iff_isSome.mp (Ne.symm hstated),
      Bool.not_eq_true _ ▸ hunreadable⟩

/-- A reply whose body states an error next to half of a surrogate pair. -/
def halfPair : Reply :=
  ⟨200, none, .ok ("\x7b\"Code\":\"Forbidden\",\"Message\":\"denied\",\"RequestId\":\"req-1\"," ++
    "\"Detail\":\"\\ud83d\"\x7d")⟩

theorem json?_halfPair : ∃ j, halfPair.json? = some j ∧ (statedError? j).isSome = true ∧
    j.readable Json.depthLimit = false ∧ (readConfirmation? j).isSome = true := by
  have hread : (halfPair.json?.any fun j => (statedError? j).isSome &&
      !j.readable Json.depthLimit && (readConfirmation? j).isSome) = true := by
    decide +kernel
  simpa [Option.any_eq_true, and_assoc] using hread

/-- An error that is concealed can be taken for a success. -/
theorem not_always_classified :
    (Delivery.replied halfPair).answer (.deleteRecord "7") = .ok () ∧
      ¬ (Delivery.replied halfPair).ClassifiedBy statedError? (.deleteRecord "7") := by
  obtain ⟨j, hjson, hstated, hunreadable, hconfirmed⟩ := json?_halfPair
  obtain ⟨body, hbody, hparse⟩ := Reply.json?_eq_some_iff.mp hjson
  obtain ⟨_, hconfirmation⟩ := Option.isSome_iff_exists.mp hconfirmed
  refine ⟨?_, Delivery.not_classifiedBy_of_conceals
    ⟨halfPair, rfl, by decide, j, hjson, hstated, hunreadable⟩ _⟩
  have hread : (Call.deleteRecord "7").readReply j = .ok () := by
    rw [Call.readReply, hconfirmation]
    rfl
  rw [Delivery.answer_eq_ok_iff]
  exact ⟨halfPair, rfl, by decide, body, j, hbody, hparse,
    reportedError?_of_unreadable hunreadable, hread⟩

end WeightedDns.Wire
