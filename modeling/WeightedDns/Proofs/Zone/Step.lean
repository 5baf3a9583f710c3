import WeightedDns.Lifecycle.Write
import WeightedDns.Proofs.Zone.Listing
import WeightedDns.Proofs.Zone.Tidy

/-!
# Steps of the lifecycle in a zone

One rule for each step of the lifecycle says what has to hold for the step to ensure something of
a zone in memory: of the zone as it is, of the zone as the step changes it, and of its errors. A
zone either has nothing made to fail, or every error is accepted.
-/

namespace WeightedDns

open Lifecycle

/-- A record with the core that an entry of a set asks for. -/
def StoredRecord.rewritten (s : RecordSet) (e : Entry) (r : StoredRecord) : StoredRecord :=
  { r with
    host := s.host, type := s.type, value := e.value, ttl := e.ttl, line := s.line,
    priority := s.priority }

/-- The record that is added for an entry of a set. -/
def NewRecord.of (s : RecordSet) (e : Entry) : NewRecord :=
  ⟨s.domain, s.host, s.type, e.value, e.ttl, s.line, s.priority⟩

namespace Zone

variable {z : Zone} {inv : Call → Zone → Prop} {err : LifecycleError → Zone → Prop}

theorem lookup_failures_eq_none (h : z.failures = []) (k : ActionKind) :
    z.failures.lookup k = none := by
  rw [h]
  rfl

/-- A call in a zone where nothing fails. -/
theorem run_attempt (calm : z.failures = []) (purpose : Attempt) (c : Call) :
    (attempt purpose c).run remote z =
      ((z.perform c).1.mapError (LifecycleError.remote purpose), (z.perform c).2) := by
  have hanswer : remote.answer c z = z.perform c :=
    answer_of_allows (lookup_failures_eq_none calm _)
  rw [attempt, Dialogue.run_mapError, Dialogue.run_call, hanswer]

/-- An attempt ends as its call has been made to fail, or as the zone performs it. -/
theorem ensures_attempt {purpose : Attempt} {c : Call} {post : c.Reply → Zone → Prop}
    (sure : z.failures = [] ∨ ∀ e z', err e z') (hinv : inv c z)
    (hperform : inv c (z.perform c).2 ∧
      Dialogue.Ended post (fun e => err (.remote purpose e)) (z.perform c)) :
    (attempt purpose c).Ensures remote inv post err z := by
  unfold attempt
  rw [Dialogue.ensures_mapError]
  refine ensures_call hinv ?_ fun _ => hperform
  intro e he
  rcases sure with hnone | hany
  · rw [lookup_failures_eq_none hnone] at he
    cases he
  · exact hany _ _

/-! ## Reading steps -/

/-- A fetch yields the record without its weight. It may yield none where fetching has been made
to fail. -/
theorem ensures_fetch? {id : String} {post : Option StoredRecord → Zone → Prop}
    (sure : z.failures = [] ∨ ∀ e z', err e z') (hinv : ∀ c, c.writes = false → inv c z)
    (hfound : ∀ r, z.record? id = some r → z.failures.lookup .describeRecord = none →
      post (some { r with weight := none }) z)
    (hgone : z.record? id = none ∨ z.failures.lookup .describeRecord ≠ none → post none z) :
    (fetch? id).Ensures remote inv post err z := by
  unfold fetch?
  rw [Dialogue.ensures_bind]
  unfold Dialogue.answerOf
  cases hfail : z.failures.lookup .describeRecord with
  | some e =>
    have hanswer : remote.answer (.describeRecord id) z = (.error e, z) := answer_of_fails hfail
    simp only [Dialogue.Ensures, hanswer]
    refine ⟨hinv _ rfl, ?_⟩
    -- a failure that says that the record is missing counts as an answer
    split
    · exact hgone (.inr (by rw [hfail]; simp))
    · rcases sure with hnone | hany
      · rw [lookup_failures_eq_none hnone] at hfail
        cases hfail
      · exact hany _ _
  | none =>
    have hanswer : remote.answer (.describeRecord id) z = z.perform (.describeRecord id) :=
      answer_of_allows hfail
    simp only [Dialogue.Ensures, hanswer, perform]
    cases hr : z.record? id with
    | none => exact ⟨hinv _ rfl, hgone (.inl hr)⟩
    | some r => exact ⟨hinv _ rfl, hfound r hr hfail⟩

/-- The records of the host and type of a set that are listed for it. -/
def listing (z : Zone) (s : RecordSet) : List StoredRecord :=
  ((z.matching s.domain ⟨some s.host, some s.type, none⟩).take walkReach).filter fun r =>
    Text.sameLetters r.host s.host && r.type == s.type

/-- A text that holds another one of the same letters is that text. -/
theorem eq_of_holds {a b : String} (hholds : Text.holds a b = true)
    (hsame : Text.sameLetters a b = true) : a = b := by
  have hlower : Text.lower a = Text.lower b := by simpa [Text.sameLetters] using hsame
  have hlength : b.toList.length = a.toList.length := by
    have h := congrArg (fun s => s.toList.length) hlower
    simpa [Text.lower] using h.symm
  exact String.ext ((Text.holds_iff.mp hholds).eq_of_length hlength).symm

theorem mem_listing {s : RecordSet} {r : StoredRecord} (h : r ∈ z.listing s) :
    r ∈ z.records ∧ r.domain = s.domain ∧ r.host = s.host ∧ r.type = s.type := by
  rw [listing, List.mem_filter, Bool.and_eq_true, beq_iff_eq] at h
  obtain ⟨hmem, hsame, htype⟩ := h
  have hmatching := List.mem_of_mem_take hmem
  rw [matching, List.mem_filter] at hmatching
  obtain ⟨hr, hselects⟩ := hmatching
  simp only [selects, Option.all_some, Bool.and_eq_true, beq_iff_eq] at hselects
  exact ⟨hr, hselects.1.1.1, eq_of_holds hselects.1.1.2 hsame, htype⟩

/-- As far as a walk reaches, every record of zone, host and type is listed. -/
theorem listing_complete {s : RecordSet} {r : StoredRecord} (hr : r ∈ z.records)
    (hdomain : r.domain = s.domain) (hhost : r.host = s.host) (htype : r.type = s.type)
    (hreach : z.records.length ≤ walkReach) : r ∈ z.listing s := by
  have hall : (z.matching s.domain ⟨some s.host, some s.type, none⟩).length ≤ walkReach :=
    Nat.le_trans (List.length_filter_le _ _) hreach
  have hholds : Text.holds s.host s.host = true := Text.holds_iff.mpr (List.infix_refl _)
  rw [listing, List.take_of_length_le hall, List.mem_filter, matching, List.mem_filter]
  simp [hr, selects, hdomain, hhost, htype, hholds]

theorem ensures_listed {s : RecordSet} {post : List StoredRecord → Zone → Prop}
    (sure : z.failures = [] ∨ ∀ e z', err e z') (hinv : ∀ c, c.writes = false → inv c z)
    (hpost : post (z.listing s) z) :
    (listed s).Ensures remote inv post err z := by
  unfold listed
  rw [Dialogue.ensures_bind, Dialogue.ensures_mapError]
  refine ensures_allRecords hinv ?_ fun _ => hpost
  intro e he
  rcases sure with hnone | hany
  · rw [lookup_failures_eq_none hnone] at he
    cases he
  · exact hany _ _

/-! ## Writing steps -/

/-- A record is added unless there is one of the same host, type and value. -/
theorem ensures_add {s : RecordSet} {e : Entry} {post : String → Zone → Prop}
    (sure : z.failures = [] ∨ ∀ e z', err e z') (hinv : ∀ c, inv c z)
    (htaken : (∃ r ∈ z.records, r.host = s.host ∧ r.type = s.type ∧ r.value = e.value) →
      ∀ e, err e z)
    (hnew : (∀ r ∈ z.records, ¬(r.host = s.host ∧ r.type = s.type ∧ r.value = e.value)) →
      ∀ r, r = NewRecord.of s e → (∀ c, inv c ((z.store r).note (.addRecord r))) ∧
        post z.freshId ((z.store r).note (.addRecord r))) :
    (add s e).Ensures remote inv post err z := by
  refine ensures_attempt sure (hinv _) ?_
  simp only [perform]
  split
  · rename_i hany
    simp only [List.any_eq_true, Bool.and_eq_true, beq_iff_eq] at hany
    obtain ⟨r, hr, ⟨hhost, htype⟩, hvalue⟩ := hany
    exact ⟨hinv _, htaken ⟨r, hr, hhost, htype, hvalue⟩ _⟩
  · rename_i hnone
    -- the zone of a record does not count, so a record of any zone may be in the way
    obtain ⟨hkept, hpost⟩ := hnew (by
      intro r hr hsame
      apply hnone
      simp only [List.any_eq_true, Bool.and_eq_true, beq_iff_eq]
      exact ⟨r, hr, ⟨hsame.1, hsame.2.1⟩, hsame.2.2⟩) _ rfl
    exact ⟨hkept _, hpost⟩

theorem Tidy.rewritten (tidy : z.Tidy) (s : RecordSet) (e : Entry) (id : String) (c : Call) :
    ((z.edit id (.rewritten s e)).note c).Tidy := by
  have hedit : (z.edit id (.rewritten s e)).Tidy := tidy.edit fun _ => rfl
  exact hedit.note c

/-- A change finds its record or reports it missing. -/
theorem Tidy.change_cases (tidy : z.Tidy) {id : String} {f : StoredRecord → StoredRecord}
    {c : Call} {motive : Except ServiceError Unit × Zone → Prop}
    (hmissing : z.record? id = none → motive (error (missing id), z))
    (hchanged : ∀ r, z.record? id = some r → motive (.ok (), (z.edit id f).note c)) :
    motive (z.change id f c) := by
  cases hr : z.record? id with
  | none => rw [change_of_record?_none hr]; exact hmissing hr
  | some r => rw [tidy.change_of_record? hr]; exact hchanged r hr

section

variable {post : Unit → Zone → Prop} {id : String}

theorem ensures_overwrite {s : RecordSet} {e : Entry} (tidy : z.Tidy)
    (sure : z.failures = [] ∨ ∀ e z', err e z') (hinv : ∀ c, inv c z)
    (hmissing : z.record? id = none → ∀ e, err e z)
    (hchanged : ∀ r, z.record? id = some r →
      ∀ c, c = .changeRecord ⟨id, s.host, s.type, e.value, e.ttl, s.line, s.priority⟩ →
      (∀ c', inv c' ((z.edit id (.rewritten s e)).note c)) ∧
        post () ((z.edit id (.rewritten s e)).note c)) :
    (overwrite s e id).Ensures remote inv post err z := by
  refine ensures_attempt sure (hinv _) ?_
  refine tidy.change_cases (motive := fun p => inv _ p.2 ∧ Dialogue.Ended post _ p) ?_ ?_
  · intro hr
    exact ⟨hinv _, hmissing hr _⟩
  · intro r hr
    obtain ⟨hkept, hpost⟩ := hchanged r hr _ rfl
    exact ⟨hkept _, hpost⟩

theorem ensures_setRemark {remark : String} (tidy : z.Tidy)
    (sure : z.failures = [] ∨ ∀ e z', err e z') (hinv : ∀ c, inv c z)
    (hmissing : z.record? id = none → ∀ e, err e z)
    (hchanged : ∀ r, z.record? id = some r → ∀ f : StoredRecord → StoredRecord,
      (f = fun r => { r with remark := if remark = "" then none else some remark }) →
      (∀ c, inv c ((z.edit id f).note (.setRemark id remark))) ∧
        post () ((z.edit id f).note (.setRemark id remark))) :
    (setRemark id remark).Ensures remote inv post err z := by
  refine ensures_attempt sure (hinv _) ?_
  refine tidy.change_cases (motive := fun p => inv _ p.2 ∧ Dialogue.Ended post _ p) ?_ ?_
  · intro hr
    exact ⟨hinv _, hmissing hr _⟩
  · intro r hr
    obtain ⟨hkept, hpost⟩ := hchanged r hr _ rfl
    exact ⟨hkept _, hpost⟩

theorem ensures_setStatus {status : Switch} (tidy : z.Tidy)
    (sure : z.failures = [] ∨ ∀ e z', err e z') (hinv : ∀ c, inv c z)
    (hmissing : z.record? id = none → ∀ e, err e z)
    (hchanged : ∀ r, z.record? id = some r → ∀ f : StoredRecord → StoredRecord,
      (f = fun r => { r with status }) →
      (∀ c, inv c ((z.edit id f).note (.setStatus id status))) ∧
        post () ((z.edit id f).note (.setStatus id status))) :
    (setStatus id status).Ensures remote inv post err z := by
  refine ensures_attempt sure (hinv _) ?_
  refine tidy.change_cases (motive := fun p => inv _ p.2 ∧ Dialogue.Ended post _ p) ?_ ?_
  · intro hr
    exact ⟨hinv _, hmissing hr _⟩
  · intro r hr
    obtain ⟨hkept, hpost⟩ := hchanged r hr _ rfl
    exact ⟨hkept _, hpost⟩

/-- A weight is set only while weighting is on for the host of the record. -/
theorem ensures_setWeight {weight : UInt32} (tidy : z.Tidy)
    (sure : z.failures = [] ∨ ∀ e z', err e z') (hinv : ∀ c, inv c z)
    (hmissing : z.record? id = none → ∀ e, err e z)
    (hclosed : ∀ r, z.record? id = some r → z.isOpen (fullName r.host r.domain) = false →
      ∀ e, err e z)
    (hchanged : ∀ r, z.record? id = some r → ∀ f : StoredRecord → StoredRecord,
      (f = fun r => { r with weight := some weight }) →
      (∀ c, inv c ((z.edit id f).note (.setWeight id weight))) ∧
        post () ((z.edit id f).note (.setWeight id weight))) :
    (setWeight id weight).Ensures remote inv post err z := by
  refine ensures_attempt sure (hinv _) ?_
  simp only [perform]
  cases hr : z.record? id with
  | none => exact ⟨hinv _, hmissing hr _⟩
  | some r =>
    dsimp only
    cases hopen : z.isOpen (fullName r.host r.domain) with
    | false => exact ⟨hinv _, hclosed r hr hopen _⟩
    | true =>
      rw [if_pos rfl, tidy.change_of_record? hr]
      obtain ⟨hkept, hpost⟩ := hchanged r hr _ rfl
      exact ⟨hkept _, hpost⟩

/-- Deleting passes over a record that is gone, or that a failure claims to be gone. -/
theorem ensures_deleteOne (sure : z.failures = [] ∨ ∀ e z', err e z') (hinv : ∀ c, inv c z)
    (hgone : z.record? id = none ∨ z.failures.lookup .deleteRecord ≠ none → post () z)
    (hremoved : ∀ r, z.record? id = some r → z.failures.lookup .deleteRecord = none →
      (∀ c, inv c ((z.remove id).note (.deleteRecord id))) ∧
        post () ((z.remove id).note (.deleteRecord id))) :
    (deleteOne id).Ensures remote inv post err z := by
  unfold deleteOne
  rw [Dialogue.ensures_bind]
  unfold Dialogue.answerOf
  cases hfail : z.failures.lookup .deleteRecord with
  | some e =>
    have hanswer : remote.answer (.deleteRecord id) z = (.error e, z) := answer_of_fails hfail
    simp only [Dialogue.Ensures, hanswer]
    refine ⟨hinv _, ?_⟩
    split
    · exact hgone (.inr (by rw [hfail]; simp))
    · rcases sure with hnone | hany
      · rw [lookup_failures_eq_none hnone] at hfail
        cases hfail
      · exact hany _ _
  | none =>
    have hanswer : remote.answer (.deleteRecord id) z = z.perform (.deleteRecord id) :=
      answer_of_allows hfail
    simp only [Dialogue.Ensures, hanswer, perform]
    cases hr : z.record? id with
    | none => exact ⟨hinv _, hgone (.inl hr)⟩
    | some r =>
      obtain ⟨hkept, hpost⟩ := hremoved r hr hfail
      exact ⟨hkept _, hpost⟩

/-- The zone with the weighting of a host switched. -/
def switched (z : Zone) (name : String) (position : Bool) : Zone :=
  { z with weighting := setSwitch name position z.weighting }

theorem ensures_setWeighting {s : RecordSet} {position : Switch}
    (sure : z.failures = [] ∨ ∀ e z', err e z') (hinv : ∀ c, inv c z)
    (hswitched : ∀ c, c = .setWeighting ⟨s.domain, s.host, some s.type, some s.line,
        position.isOn⟩ →
      (∀ c', inv c' ((z.switched (setName s) position.isOn).note c)) ∧
        post () ((z.switched (setName s) position.isOn).note c)) :
    (setWeighting s position).Ensures remote inv post err z := by
  refine ensures_attempt sure (hinv _) ?_
  obtain ⟨hkept, hpost⟩ := hswitched _ rfl
  exact ⟨hkept _, hpost⟩

end

/-! ## Switches -/

theorem lookup_setSwitch (name name' : String) (position : Bool)
    (switches : List (String × Bool)) :
    (setSwitch name position switches).lookup name' =
      if name' = name then some position else switches.lookup name' := by
  -- by induction on the switches; the first one of the name is replaced where it stands
  induction switches with
  | nil =>
    by_cases h : name' = name
    · simp [setSwitch, h]
    · simp [setSwitch, List.lookup_cons, beq_eq_false_iff_ne.mpr h, h]
  | cons s rest ih =>
    obtain ⟨n, p⟩ := s
    unfold setSwitch
    by_cases hn : n = name
    · subst hn
      by_cases h : name' = n
      · simp [h]
      · simp [List.lookup_cons, beq_eq_false_iff_ne.mpr h, h]
    · rw [if_neg hn, List.lookup_cons, List.lookup_cons, ih]
      by_cases h : name' = n
      · subst h
        simp [hn]
      · simp [beq_eq_false_iff_ne.mpr h]

theorem isOpen_switched (z : Zone) (name name' : String) (position : Bool) :
    (z.switched name position).isOpen name' =
      if name' = name then position else z.isOpen name' := by
  unfold isOpen switched
  rw [lookup_setSwitch]
  split <;> rfl

end Zone

end WeightedDns
