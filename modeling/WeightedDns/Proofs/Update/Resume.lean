import WeightedDns.Proofs.Create.Created
import WeightedDns.Proofs.Update.Outcome

/-!
# Resuming an update

An update that is stopped on the way leaves every record either as it was or as its entry has it
(`Partway`). What all records share is then read from the first one, so a set whose first record
has already moved to another group looks as if all of it had. `LeftBehind` is the one way in which
reading the set again and updating it leaves a record out of its group (`update_resumes_iff`).
-/

namespace WeightedDns

open Lifecycle

/-- The record is of host, type and line of a set. -/
def StoredRecord.InGroup (s : RecordSet) (r : StoredRecord) : Prop :=
  r.host = s.host ∧ r.type = s.type ∧ r.line = s.line

/-- An update from one set to another leaves the core of the record alone: nothing that a plan
compares differs, or all of it matches once the letter case of the host is ignored. -/
def StoredRecord.LeftAlone (old new : RecordSet) (e : Entry) (r : StoredRecord) : Prop :=
  (old.sharedDiffers new = false ∧ r.value = e.value ∧ r.ttl = e.ttl) ∨
    coreMatches r new e = true

namespace StoredRecord

variable {old new : RecordSet} {e : Entry} {r r' : StoredRecord}

instance (s : RecordSet) (r : StoredRecord) : Decidable (r.InGroup s) :=
  inferInstanceAs (Decidable (_ ∧ _ ∧ _))

theorem InGroup.of_core_eq (h : r.InGroup new) (hcore : r'.core = r.core) : r'.InGroup new := by
  have hhost : r'.host = r.host := congrArg (·.host) hcore
  have htype : r'.type = r.type := congrArg (·.type) hcore
  have hline : r'.line = r.line := congrArg (·.line) hcore
  rw [InGroup, hhost, htype, hline]
  exact h

theorem reconciled_of_leftAlone (h : r.LeftAlone old new e) : r.reconciled old new e = r := by
  rcases h with ⟨hshared, hvalue, httl⟩ | hmatches
  · simp [reconciled, hshared, hvalue, httl]
  · simp [reconciled, hmatches]

/-- A record that is seen to comes to its group, unless it is left alone elsewhere. -/
theorem reconciled_inGroup_iff :
    (r.reconciled old new e).InGroup new ↔ (r.LeftAlone old new e → r.InGroup new) := by
  constructor
  · intro hgroup halone
    rw [reconciled_of_leftAlone halone] at hgroup
    exact hgroup
  · intro h
    rcases reconciled_cases old new e r with ⟨hsame, hcompared⟩ | ⟨hsame, hmatches⟩ | hnew
    · rw [hsame]
      exact h (.inl hcompared)
    · rw [hsame]
      exact h (.inr hmatches)
    · rw [hnew]
      exact ⟨rfl, rfl, rfl⟩

end StoredRecord

namespace Zone

section

variable {z₀ z : Zone} {domain : String} {records : List StoredRecord} {t : TrackedSet}
  {old new : RecordSet}

/-- Every record of an entry that both sets have is as it was or has been seen to. -/
structure Partway (records : List StoredRecord) (old new : RecordSet) (z : Zone) : Prop where
  tidy : z.Tidy
  kept : ∀ (i : Nat) (r : StoredRecord) (e : Entry), records[i]? = some r →
    new.entries[i]? = some e → ∃ r', z.record? r.id = some r' ∧
      (r'.core = r.core ∨ r'.core = (r.reconciled old new e).core)

theorem Passes.partway (h : Passes z₀ records t.config new z) (tracks : Tracks z₀ domain records t)
    (valid : new.Admissible) : Partway records t.config new z := by
  induction h with
  | @stage n z hn hn' hstage =>
    refine ⟨hstage.tidy, ?_⟩
    intro i r e hr he
    rcases Nat.lt_or_ge i n with hi | hi
    · obtain ⟨r', hr', hcore⟩ := hstage.exists_done hi hr he
      exact ⟨r', hr', .inr hcore⟩
    · exact ⟨r, hstage.todo i r hi hr, .inl rfl⟩
  | @grown zb z placed hlength hb hplaced hgrown =>
    refine ⟨hgrown.tidy, ?_⟩
    intro i r e hr he
    obtain ⟨r', hr', hcore⟩ := hb.exists_done (List.getElem?_eq_some_iff.mp hr).1 hr he
    have hnot : r.id ∉ placed.map (·.2) := by
      intro hmem
      obtain ⟨q, hq, hid⟩ := List.mem_map.mp hmem
      exact hgrown.notMem_records hb hplaced valid hlength hq
        (hid ▸ List.mem_map_of_mem (List.mem_of_getElem? hr))
    exact ⟨r', by rw [hgrown.others r.id hnot, hr'], .inr hcore⟩
  | @shrunk zb z hlength hb hshrunk =>
    refine ⟨hshrunk.tidy, ?_⟩
    intro i r e hr he
    have hi := (List.getElem?_eq_some_iff.mp he).1
    obtain ⟨r', hr', hcore⟩ := hb.exists_done hi hr he
    exact ⟨r', by rw [hshrunk.others r.id (tracks.notMem_drop hr hi), hr'], .inr hcore⟩
  | touched _ tidy hcores ih =>
    refine ⟨tidy, ?_⟩
    intro i r e hr he
    obtain ⟨r', hr', hcore⟩ := ih.kept i r e hr he
    have hsame := core_of_cores hcores r.id
    rw [hr', Option.map_some, Option.map_eq_some_iff] at hsame
    obtain ⟨r'', hr'', hsame⟩ := hsame
    exact ⟨r'', hr'', hcore.imp hsame.trans hsame.trans⟩

/-- Wherever an update is cut off, it leaves the set partway. -/
theorem Tracks.partway_cutOff (tracks : Tracks z₀ domain records t) (valid : new.fault? = none)
    (hdomain : new.domain = domain) (e : ServiceError) (n : Nat) :
    Partway records t.config new ((update t new).run (remote.cutOff e) (z₀, n)).2.1 := by
  have admissible := RecordSet.fault?_eq_none_iff.mp valid
  have hpasses : Passes z₀ records t.config new
      ((update t new).run (remote.cutOff e) (z₀, n)).2.1 := by
    rcases Dialogue.run_cutOff_mem remote e (update t new) z₀ n with hsame | ⟨x, hx, hsame⟩
    · rw [hsame]
      exact .stage (Nat.zero_le _) (Nat.zero_le _) (.zero tracks)
    · rw [hsame]
      exact tracks.steps_pass valid hdomain x hx
  exact hpasses.partway tracks admissible

end

/-- Every ID of the set is that of a stored record of the group with value and time to live of its
entry. -/
def Finished (z : Zone) (s : RecordSet) (t : TrackedSet) : Prop :=
  ∀ (i : Nat) (id : String), t.id.ids[i]? = some id → ∃ r e, z.record? id = some r ∧
    s.entries[i]? = some e ∧ r.InGroup s ∧ r.value = e.value ∧ r.ttl = e.ttl

/-- The first record has all that the records of the set are to share. -/
def LooksMoved (z : Zone) (ids : List String) (s : RecordSet) : Prop :=
  ∃ id r, ids[0]? = some id ∧ z.record? id = some r ∧ r.InGroup s ∧ r.priority = s.priority

/-- A record is out of the group, and nothing is found to be done on it: the set looks moved and
its value and time to live stay, or only the letter case of its host is another one. -/
def LeftBehind (z : Zone) (ids : List String) (s : RecordSet) : Prop :=
  ∃ (i : Nat) (id : String) (e : Entry) (r : StoredRecord), ids[i]? = some id ∧
    s.entries[i]? = some e ∧ z.record? id = some r ∧ ¬ r.InGroup s ∧
    ((LooksMoved z ids s ∧ r.value = e.value ∧ r.ttl = e.ttl) ∨ coreMatches r s e = true)

section

variable {z₀ z z' : Zone} {domain : String} {records : List StoredRecord} {t prior t' : TrackedSet}
  {new : RecordSet} {r : StoredRecord} {e : Entry} {i : Nat}

theorem Tracks.getElem?_of_ids (tracks : Tracks z₀ domain records t) {id : String}
    (hid : t.id.ids[i]? = some id) : ∃ r, records[i]? = some r ∧ r.id = id := by
  rw [tracks.ids, List.getElem?_map, Option.map_eq_some_iff] at hid
  exact hid

/-- Partway, the records of entries that both sets have are found in their places. -/
theorem Partway.fetched_getElem? (h : Partway records t.config new z)
    (tracks : Tracks z₀ domain records t) (hr : records[i]? = some r)
    (he : new.entries[i]? = some e) :
    ∃ r', (z.fetched t.id.ids)[i]? = some r' ∧ z.record? r.id = some r' := by
  obtain ⟨r', hr', -⟩ := h.kept i r e hr he
  -- a record that is gone would shift all records after it
  have hstored : ∀ id ∈ t.id.ids.take new.entries.length, (z.record? id).isSome := by
    intro id hid
    obtain ⟨j, hj⟩ := List.mem_iff_getElem?.mp hid
    have hlt : j < new.entries.length := by
      have := (List.getElem?_eq_some_iff.mp hj).1
      rw [List.length_take] at this
      omega
    rw [List.getElem?_take_of_lt hlt] at hj
    obtain ⟨s, hs, rfl⟩ := tracks.getElem?_of_ids hj
    obtain ⟨s', hs', -⟩ := h.kept j s _ hs (List.getElem?_eq_getElem hlt)
    rw [hs']
    rfl
  refine ⟨r', ?_, hr'⟩
  rw [fetched_getElem?_of_lt hstored (List.getElem?_eq_some_iff.mp he).1, tracks.ids,
    List.getElem?_map, hr, Option.map_some, Option.bind_some, hr']

section

variable (tracks : Tracks z₀ domain records t) (h : Partway records t.config new z)
include tracks h

/-- A set that keeps its group leaves no record behind. -/
theorem Partway.not_leftBehind (uniform : Uniform records t.config)
    (hhost : new.host = t.config.host) (htype : new.type = t.config.type)
    (hline : new.line = t.config.line) : ¬ LeftBehind z t.id.ids new := by
  rintro ⟨i, id, e, r', hid, he, hr', hbehind, -⟩
  obtain ⟨r, hr, rfl⟩ := tracks.getElem?_of_ids hid
  obtain ⟨rhost, rtype, rline⟩ := uniform r (List.mem_of_getElem? hr)
  have hgroup : r.InGroup new :=
    ⟨rhost.trans hhost.symm, rtype.trans htype.symm, rline.trans hline.symm⟩
  obtain ⟨s, hs, hcore⟩ := h.kept i r e hr he
  obtain rfl : r' = s := Option.some.inj (hr'.symm.trans hs)
  rcases hcore with hsame | hnew
  · exact hbehind (hgroup.of_core_eq hsame)
  · have hkept : (r.reconciled t.config new e).InGroup new :=
      StoredRecord.reconciled_inGroup_iff.mpr fun _ => hgroup
    exact hbehind (hkept.of_core_eq hnew)

variable (valid : new.Admissible)
  (hagain : Tracks { z with failures := [] } domain (z.fetched t.id.ids) prior)
include valid hagain

/-- What the records are read to share is what the first one has. -/
theorem Partway.looksMoved_iff :
    LooksMoved z t.id.ids new ↔ prior.config.sharedDiffers new = false := by
  obtain ⟨r, hr, -⟩ := tracks.shared
  have he := List.getElem?_eq_getElem (List.length_pos_iff.mpr valid.entries_nonempty)
  obtain ⟨r', hfetched, hr'⟩ := h.fetched_getElem? tracks hr he
  obtain ⟨first, hfirst, hhost, htype, hline, hpriority, -⟩ := hagain.shared
  obtain rfl : first = r' := Option.some.inj (hfirst.symm.trans hfetched)
  have hid : t.id.ids[0]? = some r.id := by
    rw [tracks.ids, List.getElem?_map, hr, Option.map_some]
  simp [LooksMoved, StoredRecord.InGroup, RecordSet.sharedDiffers, hid, hr', hhost, htype, hline,
    hpriority, and_assoc]

variable (hupdated : Updated { z with failures := [] } (z.fetched t.id.ids) prior.config new t' z')
include hupdated

/-- The second update goes on from the record that the first one left for an entry. -/
theorem Partway.exists_resumed (hr : records[i]? = some r) (he : new.entries[i]? = some e) :
    ∃ r₁ r₂, z.record? r.id = some r₁ ∧ t'.id.ids[i]? = some r.id ∧ z'.record? r.id = some r₂ ∧
      r₂.core = (r₁.reconciled prior.config new e).core ∧
      (r₁.LeftAlone prior.config new e ↔
        (LooksMoved z t.id.ids new ∧ r₁.value = e.value ∧ r₁.ttl = e.ttl) ∨
          coreMatches r₁ new e = true) := by
  obtain ⟨r₁, hfetched, hr₁⟩ := h.fetched_getElem? tracks hr he
  obtain ⟨hid, r₂, hr₂, hcore, -⟩ := hupdated.covered.kept i r₁ e hfetched he
  rw [id_of_record? hr₁] at hid hr₂
  refine ⟨r₁, r₂, hr₁, hid, hr₂, hcore, ?_⟩
  rw [h.looksMoved_iff tracks valid hagain]
  rfl

/-- What has been left behind stays behind. -/
theorem Finished.not_leftBehind (hfinished : Finished z' new t') :
    ¬ LeftBehind z t.id.ids new := by
  rintro ⟨i, id, e, r', hid, he, hr', hbehind, halone⟩
  obtain ⟨r, hr, rfl⟩ := tracks.getElem?_of_ids hid
  obtain ⟨r₁, r₂, hr₁, hkept, hr₂, hcore, hiff⟩ :=
    h.exists_resumed tracks valid hagain hupdated hr he
  obtain rfl : r' = r₁ := Option.some.inj (hr'.symm.trans hr₁)
  rw [StoredRecord.reconciled_of_leftAlone (hiff.mpr halone)] at hcore
  obtain ⟨r₃, -, hr₃, -, hgroup, -⟩ := hfinished i r.id hkept
  obtain rfl : r₂ = r₃ := Option.some.inj (hr₂.symm.trans hr₃)
  exact hbehind (hgroup.of_core_eq hcore.symm)

/-- The second update finishes what the first one has not left behind. -/
theorem Updated.finished (hbehind : ¬ LeftBehind z t.id.ids new) : Finished z' new t' := by
  intro i id hid
  have hlt : i < new.entries.length := by
    rw [← hupdated.size]
    exact (List.getElem?_eq_some_iff.mp hid).1
  have he := List.getElem?_eq_getElem hlt
  rcases Nat.lt_or_ge i records.length with hi | hi
  · have hr := List.getElem?_eq_getElem hi
    obtain ⟨r₁, r₂, hr₁, hkept, hr₂, hcore, hiff⟩ :=
      h.exists_resumed tracks valid hagain hupdated hr he
    obtain rfl := Option.some.inj (hid.symm.trans hkept)
    have hgroup : (r₁.reconciled prior.config new new.entries[i]).InGroup new := by
      refine StoredRecord.reconciled_inGroup_iff.mpr fun halone => ?_
      refine Decidable.byContradiction fun hout => hbehind ?_
      refine ⟨i, _, _, r₁, ?_, he, hr₁, hout, hiff.mp halone⟩
      rw [tracks.ids, List.getElem?_map, hr, Option.map_some]
    obtain ⟨hvalue, httl⟩ := StoredRecord.value_ttl_of_reconciled hcore
    exact ⟨r₂, _, hr₂, he, hgroup.of_core_eq hcore, hvalue, httl⟩
  · -- no record had this place before, so it has been made for its entry
    have hfew : (z.fetched t.id.ids).length ≤ i := by
      have hsub := (z.map_id_fetched_sublist t.id.ids).length_le
      have hlength : t.id.ids.length = records.length := by rw [tracks.ids, List.length_map]
      rw [List.length_map] at hsub
      omega
    obtain ⟨id', r, hid', hr, hfits, -⟩ := hupdated.covered.made i _ hfew he
    obtain rfl := Option.some.inj (hid.symm.trans hid')
    exact ⟨r, _, hr, he, ⟨hfits.host, hfits.type, hfits.line⟩, hfits.value, hfits.ttl⟩

end

end

/-- After an update of a created set has been stopped anywhere, reading the set again and updating
it, where that succeeds, leaves every record as the set has it if no record has been left behind,
and only then; a set that keeps its group is always finished. -/
theorem update_resumes_iff {z₀ z : Zone} (h : z₀.Reachable) {preflight : Bool} {s : RecordSet}
    {t : TrackedSet} (hcreate : (create preflight s).run remote z₀ = (.ok t, z))
    {desired : RecordSet} (valid : desired.fault? = none) (hdomain : desired.domain = s.domain)
    {e : ServiceError} {n : Nat} {stopped : Zone}
    (hstopped : ((update t desired).run (remote.cutOff e) (z, n)).2.1 = stopped)
    {prior : TrackedSet} {z₁ : Zone}
    (hread : (read? t.id desired.domain).run remote { stopped with failures := [] } =
      (.ok (some prior), z₁))
    {t' : TrackedSet} {z₂ : Zone} (hresumed : (update prior desired).run remote z₁ = (.ok t', z₂)) :
    (Finished z₂ desired t' ↔ ¬ LeftBehind stopped t.id.ids desired) ∧
    (desired.host = t.config.host → desired.type = t.config.type →
      desired.line = t.config.line → Finished z₂ desired t') := by
  have created := (ensures_create preflight s h.tidy).post_of_run hcreate
  have admissible := RecordSet.fault?_eq_none_iff.mp valid
  have tracks : Tracks z desired.domain (z.fetched t.id.ids) t := by
    rw [hdomain]
    exact created.tracks
  have hpartway := tracks.partway_cutOff valid rfl e n
  rw [hstopped] at hpartway
  have tidy : { stopped with failures := [] : Zone }.Tidy :=
    ⟨hpartway.tidy.ids_nodup, hpartway.tidy.ids_numbered⟩
  have hnodup : t.id.ids.Nodup := by
    rw [tracks.ids]
    exact tracks.nodup
  obtain ⟨rfl, hagain⟩ := tidy.tracks_of_read? hnodup hread
  have hupdated := hagain.updated_of_run valid rfl hresumed
  refine ⟨⟨?_, ?_⟩, ?_⟩
  · intro hfinished
    exact hfinished.not_leftBehind tracks hpartway admissible hagain hupdated
  · intro hbehind
    exact hupdated.finished tracks hpartway admissible hagain hbehind
  · intro hhost htype hline
    exact hupdated.finished tracks hpartway admissible hagain
      (hpartway.not_leftBehind tracks created.uniform hhost htype hline)

/-- Two records of one host, created as a set. -/
def createdPair : Zone := ((create true pairRead.config).run remote empty).2

theorem create_pair :
    (create true pairRead.config).run remote empty = (.ok pairRead, createdPair) := by rfl

/-- The zone after an update to another host has been stopped with the first record moved. -/
def stopped : Zone :=
  ((update pairRead (plain "api" ["192.0.2.1", "192.0.2.2"])).run
    (remote.cutOff ⟨provider, .quotaExceeded none⟩) (createdPair, 2)).2.1

/-- What is read then: the host of the first record, and no weight for the second one, which is
not listed there. -/
def stoppedRead : TrackedSet :=
  ⟨pairRead.id, { plain "api" [] with
    entries := [⟨"192.0.2.1", 600, 1, .enabled, none⟩, ⟨"192.0.2.2", 600, 0, .enabled, none⟩] }⟩

theorem read?_stopped :
    (read? pairRead.id "example.com").run remote { stopped with failures := [] } =
      (.ok (some stoppedRead), stopped) := by rfl

/-- The second record follows the first one where its value is to change as well. -/
theorem stopped_resumes :
    ∃ t' z', (update stoppedRead (plain "api" ["192.0.2.1", "192.0.2.4"])).run remote stopped =
        (.ok t', z') ∧ Finished z' (plain "api" ["192.0.2.1", "192.0.2.4"]) t' := by
  have hvalid : (plain "api" ["192.0.2.1", "192.0.2.4"]).fault? = none := by decide
  have hstopped : ((update pairRead (plain "api" ["192.0.2.1", "192.0.2.4"])).run
      (remote.cutOff ⟨provider, .quotaExceeded none⟩) (createdPair, 2)).2.1 = stopped := by rfl
  have hresumed : (update stoppedRead (plain "api" ["192.0.2.1", "192.0.2.4"])).run remote stopped =
      (.ok ⟨pairRead.id, plain "api" ["192.0.2.1", "192.0.2.4"]⟩,
        ((update stoppedRead (plain "api" ["192.0.2.1", "192.0.2.4"])).run remote stopped).2) := by
    rfl
  refine ⟨_, _, hresumed, (update_resumes_iff .empty create_pair hvalid rfl hstopped
    read?_stopped hresumed).1.2 ?_⟩
  rintro ⟨i, id, e, r, hid, he, hr, hout, halone⟩
  match i with
  | 0 =>
    obtain rfl : "1000" = id := Option.some.inj hid
    have hmoved : (stopped.record? "1000").all (fun r => decide (r.InGroup
        (plain "api" ["192.0.2.1", "192.0.2.4"]))) = true := by decide +kernel
    rw [hr, Option.all_some, decide_eq_true_eq] at hmoved
    exact hout hmoved
  | 1 =>
    obtain rfl : "1001" = id := Option.some.inj hid
    obtain rfl : (⟨"192.0.2.4", 600, 1, .enabled, none⟩ : Entry) = e := Option.some.inj he
    have hvalue : (stopped.record? "1001").all (fun r => r.value == "192.0.2.2") = true := by
      decide +kernel
    rw [hr, Option.all_some, beq_iff_eq] at hvalue
    have hsame : r.value = "192.0.2.4" := by
      rcases halone with ⟨-, hsame, -⟩ | hmatches
      · exact hsame
      · exact (StoredRecord.coreMatches_iff.mp hmatches).2.2.1
    rw [hvalue] at hsame
    revert hsame
    decide
  | i + 2 => cases hid

/-- Where it is only to move, it stays behind. -/
theorem update_not_always_resumes :
    ¬ ∀ (z₀ z : Zone) (preflight : Bool) (s : RecordSet) (t : TrackedSet) (desired : RecordSet)
      (e : ServiceError) (n : Nat) (prior : TrackedSet) (z₁ : Zone) (t' : TrackedSet) (z₂ : Zone),
      z₀.Reachable → (create preflight s).run remote z₀ = (.ok t, z) → desired.fault? = none →
      desired.domain = s.domain →
      (read? t.id desired.domain).run remote
        { ((update t desired).run (remote.cutOff e) (z, n)).2.1 with failures := [] } =
          (.ok (some prior), z₁) →
      (update prior desired).run remote z₁ = (.ok t', z₂) → Finished z₂ desired t' := by
  intro h
  have hresumed : (update stoppedRead (plain "api" ["192.0.2.1", "192.0.2.2"])).run remote stopped =
      (.ok stoppedRead, stopped) := by rfl
  have hfinished := h empty createdPair true pairRead.config pairRead
    (plain "api" ["192.0.2.1", "192.0.2.2"]) ⟨provider, .quotaExceeded none⟩ 2 stoppedRead stopped
    stoppedRead stopped .empty create_pair (by decide) rfl read?_stopped hresumed
  obtain ⟨r, -, hr, -, hgroup, -⟩ := hfinished 1 "1001" rfl
  have hbehind : (stopped.record? "1001").all (fun r => !decide (r.InGroup
      (plain "api" ["192.0.2.1", "192.0.2.2"]))) = true := by decide +kernel
  rw [hr, Option.all_some] at hbehind
  simp [hgroup] at hbehind

end Zone

end WeightedDns
