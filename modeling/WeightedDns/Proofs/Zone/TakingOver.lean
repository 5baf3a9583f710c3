import WeightedDns.Proofs.Record.ImportId
import WeightedDns.Proofs.Update.Loop
import WeightedDns.Proofs.Zone.Reading

/-!
# Records taken over from a zone

Taking over a record reads the text that names it, looks for the record, compares its zone with
the one that was named, and then reads it as a set of one (`Tidy.run_takeOver`). So it accepts
exactly the texts that name a record of that zone, and its set is the one that reading that record
returns (`takeOver_outcome`).

Zones are compared without regard to case there, and the set has the name as the text spells it.
Planning compares it exactly, so a set that was taken over under another spelling is refused
(`respelled_plan_iff`).
-/

namespace WeightedDns

open Lifecycle

/-- A record can be one of the zone: it names that zone in some spelling, or none at all. -/
def StoredRecord.IsOf (r : StoredRecord) (domain : String) : Prop :=
  r.domain = "" ∨ Text.sameLetters r.domain domain = true

instance (r : StoredRecord) (domain : String) : Decidable (r.IsOf domain) :=
  inferInstanceAs (Decidable (_ ∨ _))

theorem StoredRecord.not_isOf_iff {r : StoredRecord} {domain : String} :
    ¬ r.IsOf domain ↔ (r.domain != "" && !Text.sameLetters r.domain domain) = true := by
  simp [IsOf]

namespace Zone

variable {z : Zone} {i : ImportId} {text : String}

/-- What becomes of a record that is to be taken over. -/
def takenOver (z : Zone) (i : ImportId) : Except LifecycleError TrackedSet :=
  match z.record? i.recordId with
  | none => .error (.remote (.readRecord i.recordId) ⟨provider, missing i.recordId⟩)
  | some r =>
    if r.IsOf i.domain then .ok (z.reading i.domain r [r])
    else .error (.domainMismatch i.recordId i.domain r.domain)

/-- A single record is put together as the set that is read from it. -/
theorem Tidy.run_assemble (tidy : z.Tidy) (calm : z.failures = []) {r : StoredRecord}
    (hr : r ∈ z.records) (domain : String) :
    (assemble domain [r.unweighted]).run remote z = (.ok (z.reading domain r [r]), z) := by
  have hensures : (assemble domain ([r].map (·.unweighted))).Ensures remote (fun _ _ => True)
      (fun t z' => t = z.reading domain r [r] ∧ z' = z) (fun _ _ => False) z :=
    ensures_assemble tidy (.inl calm) (fun _ _ => trivial) (by simpa using hr) ⟨rfl, rfl⟩
  obtain ⟨t, z', hrun, rfl, rfl⟩ := hensures.exists_run
  exact hrun

theorem takenOver_eq_ok_iff {t : TrackedSet} : z.takenOver i = .ok t ↔
    ∃ r, z.record? i.recordId = some r ∧ r.IsOf i.domain ∧ t = z.reading i.domain r [r] := by
  unfold takenOver
  cases z.record? i.recordId with
  | none => simp
  | some r => by_cases hdomain : r.IsOf i.domain <;> simp [hdomain, eq_comm]

/-- What is taken over is the set that is read from that one record. -/
theorem Tidy.read?_takenOver (tidy : z.Tidy) (calm : z.failures = []) {t : TrackedSet}
    (h : z.takenOver i = .ok t) :
    ResourceId.new? [i.recordId] = some t.id ∧
      (read? t.id i.domain).run remote z = (.ok (some t), z) := by
  obtain ⟨r, hr, -, rfl⟩ := takenOver_eq_ok_iff.mp h
  have hid : (z.reading i.domain r [r]).id = ⟨[i.recordId]⟩ := by
    rw [← id_of_record? hr]
    rfl
  have hfetched : z.fetched [i.recordId] = [r] := by
    rw [fetched, List.filterMap_cons_some hr]
    rfl
  rw [hid]
  refine ⟨ResourceId.new?_eq_some_iff.mpr ⟨List.cons_ne_nil _ _, ?_, rfl⟩,
    tidy.run_read? calm hfetched i.domain⟩
  obtain ⟨n, -, hn⟩ := tidy.ids_numbered r (mem_of_record? hr)
  rw [List.forall_mem_singleton, ← id_of_record? hr, hn]
  exact isRecordId_toString n

end Zone

namespace Lifecycle

variable {i : ImportId} {text : String}

theorem takeOver_eq (hwritten : i.IsWritten text) :
    takeOver text =
      attempt (.readRecord i.recordId) (.describeRecord i.recordId) >>= fun r =>
        if r.IsOf i.domain then assemble i.domain [r]
        else .fail (.domainMismatch i.recordId i.domain r.domain) := by
  rw [takeOver, ImportId.parse?_eq_some_iff.mpr hwritten]
  refine congrArg (attempt _ _ >>= ·) (funext fun r => ?_)
  by_cases hdomain : r.IsOf i.domain
  · rw [if_pos hdomain, if_neg (mt StoredRecord.not_isOf_iff.mpr (not_not_intro hdomain))]
  · rw [if_neg hdomain, if_pos (StoredRecord.not_isOf_iff.mp hdomain)]

theorem takeOver_of_unwritten (h : ∀ i : ImportId, ¬ i.IsWritten text) :
    takeOver text = .fail (.invalidImportId text) := by
  rw [takeOver, ImportId.parse?_eq_none_iff.mpr h]

end Lifecycle

namespace Zone

variable {z : Zone} {i : ImportId} {text : String}

/-- Taking over ends as the record stands that the text names. -/
theorem Tidy.run_takeOver (tidy : z.Tidy) (calm : z.failures = []) (hwritten : i.IsWritten text) :
    (takeOver text).run remote z = (z.takenOver i, z) := by
  rw [takeOver_eq hwritten, Dialogue.run_bind, run_attempt calm, takenOver, perform]
  cases hr : z.record? i.recordId with
  | none => rfl
  | some r =>
    change (if r.IsOf i.domain then assemble i.domain [r.unweighted] else _).run remote z = _
    by_cases hdomain : r.IsOf i.domain
    · rw [if_pos hdomain, tidy.run_assemble calm (mem_of_record? hr)]
      simp [hdomain]
    · rw [if_neg hdomain]
      simp [hdomain, Dialogue.run]

/-- A text is taken over exactly if it has a single slash with a zone before it and the ID of a
stored record behind it, and that record is of this zone, in whatever case, or names none. A text of
another shape is refused before any call, then a record that is missing, and then one of another
zone. The set is the one that reading the record returns. -/
theorem takeOver_outcome (h : z.Reachable) (calm : z.failures = []) (text : String) :
    ((∃ state z', (takeOver text).run remote z = (.ok state, z')) ↔
      ∃ (i : ImportId) (r : StoredRecord), i.IsWritten text ∧ z.record? i.recordId = some r ∧
        (r.domain = "" ∨ Text.sameLetters r.domain i.domain = true)) ∧
    ((∀ i : ImportId, ¬ i.IsWritten text) → takeOver text = .fail (.invalidImportId text)) ∧
    ∀ i : ImportId, i.IsWritten text →
      (z.record? i.recordId = none → (takeOver text).run remote z =
        (.error (.remote (.readRecord i.recordId) ⟨provider, missing i.recordId⟩), z)) ∧
      (∀ r, z.record? i.recordId = some r →
        ¬ (r.domain = "" ∨ Text.sameLetters r.domain i.domain = true) →
        (takeOver text).run remote z =
          (.error (.domainMismatch i.recordId i.domain r.domain), z)) ∧
      ∀ state z', (takeOver text).run remote z = (.ok state, z') →
        z' = z ∧ ResourceId.new? [i.recordId] = some state.id ∧
          (read? state.id i.domain).run remote z = (.ok (some state), z) := by
  refine ⟨⟨?_, ?_⟩, takeOver_of_unwritten, fun i hwritten => ⟨?_, ?_, ?_⟩⟩
  · rintro ⟨state, z', hrun⟩
    cases hparse : ImportId.parse? text with
    | none =>
      rw [takeOver_of_unwritten (ImportId.parse?_eq_none_iff.mp hparse)] at hrun
      cases hrun
    | some i =>
      have hwritten := ImportId.parse?_eq_some_iff.mp hparse
      rw [h.tidy.run_takeOver calm hwritten] at hrun
      obtain ⟨r, hr, hdomain, -⟩ := takenOver_eq_ok_iff.mp (Prod.mk.inj hrun).1
      exact ⟨i, r, hwritten, hr, hdomain⟩
  · rintro ⟨i, r, hwritten, hr, hdomain⟩
    refine ⟨z.reading i.domain r [r], z, ?_⟩
    rw [h.tidy.run_takeOver calm hwritten, takenOver_eq_ok_iff.mpr ⟨r, hr, hdomain, rfl⟩]
  · intro hr
    rw [h.tidy.run_takeOver calm hwritten, takenOver, hr]
  · intro r hr hdomain
    rw [h.tidy.run_takeOver calm hwritten, takenOver, hr]
    exact congrArg (·, z) (if_neg hdomain)
  · intro state z' hrun
    rw [h.tidy.run_takeOver calm hwritten] at hrun
    obtain ⟨hstate, rfl⟩ := Prod.mk.inj hrun
    exact ⟨rfl, h.tidy.read?_takenOver calm hstate⟩

/-- A zone with one record. -/
def lone : Zone := empty.seed "www" .a "192.0.2.1" 600

/-- The record of that zone. -/
def loneRecord : StoredRecord :=
  stored "1000" ⟨domain, "www", .a, "192.0.2.1", 600, RecordSet.defaultLine, none⟩

theorem lone_reachable : lone.Reachable := .seed _ _ _ _ .empty

theorem isWritten_shouted : (⟨"EXAMPLE.COM", "1000"⟩ : ImportId).IsWritten "EXAMPLE.COM/1000" :=
  ⟨by decide, by decide, by decide, by decide⟩

/-- A record that is named in capitals is taken over, and is read again under the same name. -/
theorem lone_takenOver :
    ∃ state, (takeOver "EXAMPLE.COM/1000").run remote lone = (.ok state, lone) ∧
      (read? state.id "EXAMPLE.COM").run remote lone = (.ok (some state), lone) := by
  obtain ⟨haccepted, -, hends⟩ := takeOver_outcome lone_reachable rfl "EXAMPLE.COM/1000"
  obtain ⟨state, z', hrun⟩ :=
    haccepted.mpr ⟨_, loneRecord, isWritten_shouted, rfl, .inr (by decide)⟩
  obtain ⟨rfl, -, hread⟩ := (hends _ isWritten_shouted).2.2 state z' hrun
  exact ⟨state, hrun, hread⟩

end Zone

/-- A record that names its zone is taken over under every spelling of it in letters of another
case. Planning accepts the set for a configuration with the spelling of the record only if the text
has that spelling. -/
theorem Lifecycle.respelled_plan_iff {σ : Type} {remote : Remote σ} {s s₁ : σ} {i : ImportId}
    {text : String} {r : StoredRecord} (hwritten : i.IsWritten text)
    (hr : remote.answer (.describeRecord i.recordId) s = (.ok r, s₁))
    (hspelling : Text.sameLetters r.domain i.domain = true) :
    (takeOver text).run remote s = (assemble i.domain [r]).run remote s₁ ∧
    ∀ state s', (takeOver text).run remote s = (.ok state, s') →
      ∀ desired : RecordSet, desired.domain = r.domain →
        ((∃ plan, Plan.between state desired = .ok plan) ↔ i.domain = r.domain) ∧
        (i.domain ≠ r.domain →
          Plan.between state desired = .error (.domainChange i.domain r.domain)) := by
  have htaken : (takeOver text).run remote s = (assemble i.domain [r]).run remote s₁ := by
    rw [takeOver_eq hwritten, Dialogue.run_bind, attempt, Dialogue.run_mapError,
      Dialogue.run_call, hr]
    change (if r.IsOf i.domain then _ else _ : Operation TrackedSet).run remote s₁ = _
    rw [if_pos (.inr hspelling)]
  refine ⟨htaken, fun state s' hrun desired hdesired => ?_⟩
  rw [htaken] at hrun
  obtain ⟨complete, -, hids, hentries, hdomain⟩ := exists_of_run_assemble hrun
  have hsize : state.id.ids.length = state.config.entries.length := by
    rw [hids, hentries, List.length_map, List.length_map]
  -- the set has the spelling of the text, and there is no other check that it could fail
  rw [← hdesired]
  by_cases hsame : i.domain = desired.domain
  · exact ⟨iff_of_true ⟨_, Plan.between_eq (hdomain.trans hsame) hsize⟩ hsame,
      fun hne => absurd hsame hne⟩
  · have hrefused : Plan.between state desired =
        .error (.domainChange i.domain desired.domain) := by
      rw [← hdomain] at hsame ⊢
      exact Plan.between_of_domain_ne hsame
    refine ⟨iff_of_false ?_ hsame, fun _ => hrefused⟩
    rintro ⟨plan, hplan⟩
    rw [hrefused] at hplan
    cases hplan

namespace Zone

/-- The set of the one record, in a configuration that spells its zone as the record does. -/
def loneSet : RecordSet where
  domain := domain
  host := "www"
  type := .a
  line := RecordSet.defaultLine
  priority := none
  weighting := .disabled
  entries := [⟨"192.0.2.1", 600, 0, .enabled, none⟩]

theorem run_takeOver_shouted : (takeOver "EXAMPLE.COM/1000").run remote lone =
    (lone.takenOver ⟨"EXAMPLE.COM", "1000"⟩, lone) :=
  lone_reachable.tidy.run_takeOver rfl isWritten_shouted

/-- A record that has been taken over under its name in capitals has no plan for its own name. -/
theorem shouted_refused :
    ∃ state, (takeOver "EXAMPLE.COM/1000").run remote lone = (.ok state, lone) ∧
      Plan.between state loneSet = .error (.domainChange "EXAMPLE.COM" "example.com") := by
  have hfound : remote.answer (.describeRecord "1000") lone =
      (.ok loneRecord.unweighted, lone) := rfl
  obtain ⟨-, hplans⟩ := respelled_plan_iff isWritten_shouted hfound (by decide)
  obtain ⟨-, hrefused⟩ := hplans _ lone run_takeOver_shouted loneSet rfl
  exact ⟨_, run_takeOver_shouted, hrefused (by decide)⟩

/-- Not every spelling that is taken over can be planned for the name of the record. -/
theorem not_always_respelled : ¬ ∀ (z z' : Zone) (id d : String) (r : StoredRecord)
    (state : TrackedSet) (desired : RecordSet),
      z.Reachable → z.failures = [] → z.record? id = some r →
      Text.sameLetters d r.domain = true →
      (takeOver (d ++ "/" ++ id)).run remote z = (.ok state, z') → desired.domain = r.domain →
      ∃ plan, Plan.between state desired = .ok plan := by
  intro hplanned
  obtain ⟨plan, hplan⟩ := hplanned lone lone "1000" "EXAMPLE.COM" loneRecord _ loneSet
    lone_reachable rfl rfl (by decide) run_takeOver_shouted rfl
  rw [Plan.between_of_domain_ne (by decide)] at hplan
  cases hplan

end Zone

end WeightedDns
