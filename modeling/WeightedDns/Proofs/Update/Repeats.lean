import WeightedDns.Proofs.Create.Created
import WeightedDns.Proofs.Update.Distinct
import WeightedDns.Proofs.Update.Ending

/-!
# Records that are tracked twice

A new entry takes over the first listed record of its value, and nothing is asked of that record.
It may be tracked for another entry already, if its value has been changed since the set was read
and the update has not looked at it. Then one ID is tracked twice, and only then
(`write_tracks_once`).
-/

namespace WeightedDns

open Lifecycle

namespace StoredRecord

/-- Adding an entry of a set would duplicate the record. -/
structure Duplicates (s : RecordSet) (e : Entry) (r : StoredRecord) : Prop where
  domain : r.domain = s.domain
  host : r.host = s.host
  type : r.type = s.type
  value : r.value = e.value

variable {z : Zone} {s : RecordSet} {e : Entry} {r r' : StoredRecord}

theorem Duplicates.of_core_eq (h : r.Duplicates s e) (hcore : r'.core = r.core) :
    r'.Duplicates s e where
  domain := (congrArg (·.domain) hcore).trans h.domain
  host := (congrArg (·.host) hcore).trans h.host
  type := (congrArg (·.type) hcore).trans h.type
  value := (congrArg (·.value) hcore).trans h.value

theorem Duplicates.of_listed (hr : r ∈ z.listing s) (hvalue : r.value = e.value) :
    r.Duplicates s e := by
  obtain ⟨-, hdomain, hhost, htype⟩ := Zone.mem_listing hr
  exact ⟨hdomain, hhost, htype, hvalue⟩

theorem Duplicates.mem_listing (h : r.Duplicates s e) (hr : r ∈ z.records)
    (hreach : z.records.length ≤ Zone.walkReach) : r ∈ z.listing s :=
  Zone.listing_complete hr h.domain h.host h.type hreach

/-- Where records are told apart, an entry would duplicate only one. -/
theorem Duplicates.unique (h : r.Duplicates s e) (h' : r'.Duplicates s e) (tidy : z.Tidy)
    (distinct : z.Distinct) (hr : r ∈ z.records) (hr' : r' ∈ z.records) : r = r' := by
  refine tidy.distinct_iff.mp distinct r hr r' hr' ?_
  rw [triple, triple, h.host, h.type, h.value, h'.host, h'.type, h'.value]

end StoredRecord

namespace Zone

/-- A new entry would duplicate a record that is tracked for an entry whose core is not checked. -/
def Retakes (z : Zone) (prior : TrackedSet) (desired : RecordSet) : Prop :=
  ∃ (i j : Nat) (b : Entry) (id : String) (e a : Entry) (r : StoredRecord),
    InBoth prior desired i b id e ∧ Plan.coreChanges prior.config desired b e = false ∧
    prior.id.ids.length ≤ j ∧ desired.entries[j]? = some a ∧ z.record? id = some r ∧
    r.Duplicates desired a

section

variable {z₀ z zb : Zone} {prior : TrackedSet} {new : RecordSet} {deferred : Bool}
  {p₀ p : Progress} {placed : List (Entry × String)} {q : Entry × String} {id : String}
  {r : StoredRecord}

/-- As long as no ID is tracked twice, only one entry has it. -/
theorem unchecked_of_nodup {n i : Nat} {b e : Entry} (hnodup : prior.id.ids.Nodup)
    (hb : InBoth prior new i b id e) (hcore : Plan.coreChanges prior.config new b e = false) :
    Unchecked prior new n id := by
  intro j b' e' _ hb'
  obtain rfl := (List.getElem?_inj hb.lt_length hnodup).mp (hb.id_eq.trans hb'.id_eq.symm)
  obtain ⟨rfl, -, rfl⟩ := hb.unique hb'
  exact hcore

section

variable (hb : Stale z₀ prior new deferred prior.id.ids.length p₀ zb)
  (h : Creating zb p₀ new deferred placed p z) (valid : new.Admissible)
include hb h valid

/-- A new entry comes after all that both sets have, so none of these has its value. -/
theorem Creating.value_ne_before (hq : q ∈ placed) {i : Nat} {e : Entry}
    (hi : i < prior.id.ids.length) (he : new.entries[i]? = some e) : e.value ≠ q.1.value := by
  intro hvalue
  obtain ⟨k, hk⟩ := List.mem_iff_getElem?.mp hq
  have hindex := valid.index_eq he (getElem?_of_placed h.entries hk) hvalue
  rw [hb.size] at hindex
  omega

/-- The record that a new entry has taken over is as it was and has not been checked. -/
theorem Creating.taken_over (hq : q ∈ placed) (hr : zb.record? q.2 = some r) :
    ∃ r₀, z₀.record? q.2 = some r₀ ∧ r₀.Duplicates new q.1 ∧
      Unchecked prior new prior.id.ids.length q.2 := by
  obtain ⟨hlisted, hvalue⟩ := h.origin q hq r hr
  rcases hb.surveyed.values q.2 r hr with ⟨i, e, hi, he, hsame⟩ | ⟨r₀, hr₀, hcore, hunchecked⟩
  · exact absurd (hsame.symm.trans hvalue) (h.value_ne_before hb valid hq hi he)
  · rw [id_of_record? hr] at hr₀ hunchecked
    exact ⟨r₀, hr₀, (StoredRecord.Duplicates.of_listed hlisted hvalue).of_core_eq hcore.symm,
      hunchecked⟩

/-- A new entry shares the ID of another one only if it takes a record over again. -/
theorem Creating.retakes (hlater : Later zb z) (issued : z₀.Issued prior.id.ids)
    (size : prior.id.ids.length = prior.config.entries.length)
    (hlength : prior.id.ids.length ≤ new.entries.length) (hq : q ∈ placed)
    (hmem : q.2 ∈ p₀.ids) : Retakes z₀ prior new := by
  obtain ⟨s, hs, -⟩ := h.made q hq
  -- an ID that was there before the entry got its record is that of a record
  have hthere : (zb.record? q.2).isSome := by
    rcases hb.ids q.2 hmem with hprior | hthere
    · refine hlater.isSome_of_issued (issued.mono hb.nextId) hprior ?_
      rw [hs]
      rfl
    · exact hthere
  obtain ⟨r, hr⟩ := Option.isSome_iff_exists.mp hthere
  obtain ⟨r₀, hr₀, hduplicates, hunchecked⟩ := h.taken_over hb valid hq hr
  obtain ⟨i, hi⟩ := List.mem_iff_getElem?.mp hmem
  have hlt := (List.getElem?_eq_some_iff.mp hi).1
  rw [hb.size] at hlt
  obtain ⟨b, id, e, hboth⟩ := exists_inBoth size hlt (Nat.lt_of_lt_of_le hlt hlength)
  obtain ⟨id', hid', hmended⟩ := hb.done i b id e hlt hboth
  obtain rfl := Option.some.inj (hi.symm.trans hid')
  obtain ⟨k, hk⟩ := List.mem_iff_getElem?.mp hq
  have hentry := getElem?_of_placed h.entries hk
  rw [hb.size] at hentry
  cases hmended with
  | kept _ =>
    exact ⟨i, _, b, _, e, q.1, r₀, hboth, hunchecked i b e hlt hboth, Nat.le_add_right _ _, hentry,
      hr₀, hduplicates⟩
  | replaced _ _ fresh _ =>
    rw [fresh] at hr₀
    cases hr₀

/-- A new entry that is to take a record over again does so. -/
theorem Creating.shares (tidy₀ : z₀.Tidy) (distinct : z₀.Distinct)
    (hreach : zb.records.length ≤ walkReach) (hnodup : prior.id.ids.Nodup)
    (hall : p.ids.length = new.entries.length) (hretakes : Retakes z₀ prior new) :
    ∃ q ∈ placed, q.2 ∈ p₀.ids := by
  obtain ⟨i, j, b, id, e, a, r₀, hboth, hcore, hj, ha, hr₀, hduplicates⟩ := hretakes
  have hplaced : j - prior.id.ids.length < placed.length := by
    have hcount := h.length_ids
    have hlt := (List.getElem?_eq_some_iff.mp ha).1
    rw [hb.size] at hcount
    omega
  have hentry := getElem?_of_placed h.entries (List.getElem?_eq_getElem hplaced)
  rw [hb.size, Nat.add_sub_cancel' hj] at hentry
  obtain rfl := Option.some.inj (ha.symm.trans hentry)
  refine ⟨_, List.getElem_mem hplaced, ?_⟩
  -- the record is listed when the new entry gets its own, so this is one that was there
  obtain ⟨r, hr, hsame⟩ := hb.surveyed.spared id r₀ hr₀ (unchecked_of_nodup hnodup hboth hcore)
  have hkept := hduplicates.of_core_eq hsame
  have hlisted := hkept.mem_listing (mem_of_record? hr) hreach
  cases hs : zb.record? placed[j - prior.id.ids.length].2 with
  | none =>
    exact absurd hkept.value (h.unlisted _ (List.getElem_mem hplaced) hs r hlisted)
  | some s =>
    obtain ⟨s₀, hs₀, hduplicates', -⟩ := h.taken_over hb valid (List.getElem_mem hplaced) hs
    obtain rfl := hduplicates'.unique hduplicates tidy₀ distinct (mem_of_record? hs₀)
      (mem_of_record? hr₀)
    obtain ⟨id', hid', hmended⟩ := hb.done i b id e hboth.lt_length hboth
    rw [← id_of_record? hs₀, id_of_record? hr₀]
    cases hmended with
    | kept _ => exact List.mem_of_getElem? hid'
    | replaced _ gone _ _ =>
      rw [gone] at hr₀
      cases hr₀

end

/-- Where no record is taken over again, the IDs stay different. -/
theorem Concluded.nodup (h : Concluded z₀ prior new deferred p z) (valid : new.Admissible)
    (size : prior.id.ids.length = prior.config.entries.length) (issued : z₀.Issued prior.id.ids)
    (hnodup : prior.id.ids.Nodup) (hfree : ¬ Retakes z₀ prior new) : p.ids.Nodup := by
  cases h with
  | grown hlength hb h hlater _ =>
    rw [h.ids, List.nodup_append]
    refine ⟨hb.nodup hnodup, h.nodup, ?_⟩
    rintro id hid id' hid' rfl
    obtain ⟨q, hq, rfl⟩ := List.mem_map.mp hid'
    exact hfree (h.retakes hb valid hlater issued size hlength hq hid)
  | pruned _ hb _ => exact hb.nodup hnodup

/-- Where a record is taken over again, its ID is there twice. -/
theorem Concluded.exists_pair (h : Concluded z₀ prior new deferred p z) (valid : new.Admissible)
    (tidy₀ : z₀.Tidy) (distinct : z₀.Distinct) (hreach : z₀.records.length ≤ 49950)
    (hnodup : prior.id.ids.Nodup) (hretakes : Retakes z₀ prior new) :
    ∃ id, (z.record? id).isSome ∧ [id, id].Sublist (p.ids.take new.entries.length) := by
  cases h with
  | grown hlength hb h hlater hall =>
    have hwalk := hb.surveyed.length
    have hbound := valid.entries_bounded
    have hfits : 49950 + RecordSet.entryLimit ≤ walkReach := by decide
    obtain ⟨q, hq, hmem⟩ := h.shares hb valid tidy₀ distinct (by omega) hnodup hall hretakes
    obtain ⟨r, hr, -⟩ := h.made q hq
    refine ⟨q.2, by rw [hr]; rfl, ?_⟩
    rw [← hall, List.take_length, h.ids]
    exact List.Sublist.append (List.singleton_sublist.mpr hmem)
      (List.singleton_sublist.mpr (List.mem_map_of_mem hq))
  | pruned hlength _ _ =>
    obtain ⟨_, j, _, _, _, _, _, _, _, hj, ha, -⟩ := hretakes
    have hlt := (List.getElem?_eq_some_iff.mp ha).1
    omega

end

/-- A create tracks every record once. An update of a set that does so goes on doing so unless a
new entry takes over a record that is tracked already, and exactly then if the records of the zone
are told apart by host, type and value and within the reach of a listing. -/
theorem write_tracks_once {z : Zone} (h : z.Reachable) :
    (∀ (preflight : Bool) (s : RecordSet) (t : TrackedSet) (z' : Zone),
      (create preflight s).run remote z = (.ok t, z') → t.id.ids.Nodup) ∧
    ∀ (prior : TrackedSet) (desired : RecordSet) (t : TrackedSet) (z' : Zone),
      prior.id.ids.Nodup → z.Issued prior.id.ids →
      (update prior desired).run remote z = (.ok t, z') →
      (¬ Retakes z prior desired → t.id.ids.Nodup) ∧
      (z.Distinct → z.records.length ≤ 49950 → t.id.ids.Nodup → ¬ Retakes z prior desired) := by
  refine ⟨?_, ?_⟩
  · intro preflight s t z' hrun
    exact (founded_of_run h.tidy hrun).nodup
  · intro prior desired t z' hnodup issued hrun
    obtain ⟨valid, size, _, p, zd, hconcluded, hcores, hread⟩ := exists_concluded h.tidy hrun
    have hconcluded := hconcluded issued
    have hids := hread.ids
    rw [map_id_fetched_eq_filter] at hids
    refine ⟨?_, ?_⟩
    · intro hfree
      rw [hids]
      have hall := hconcluded.nodup valid size issued hnodup hfree
      exact (List.filter_sublist.trans (List.take_sublist _ _)).nodup hall
    · intro distinct hreach htwice hretakes
      obtain ⟨id, hsome, hpair⟩ :=
        hconcluded.exists_pair valid h.tidy distinct hreach hnodup hretakes
      rw [← isSome_of_cores hcores] at hsome
      have hkept := hpair.filter fun id => (z'.record? id).isSome
      rw [← hids, List.filter_eq_self.mpr (by simpa using hsome)] at hkept
      exact List.nodup_iff_sublist.mp htwice id hkept

/-- What is read of a single record. -/
def soloRead : TrackedSet := ⟨⟨["1000"]⟩, plain "www" ["192.0.2.1"]⟩

/-- A zone with this record, whose value has been changed since. -/
def revalued : Zone :=
  ((empty.seed "www" .a "192.0.2.1" 600).answer
    (.changeRecord ⟨"1000", "www", .a, "192.0.2.2", 600, RecordSet.defaultLine, none⟩)).2

theorem revalued_reachable : revalued.Reachable := .answer _ (.seed _ _ _ _ .empty)

theorem revalued_issued : revalued.Issued soloRead.id.ids :=
  revalued_reachable.tidy.issued (by decide)

/-- What is read back where a second entry has the value that the record has got. -/
theorem update_revalued :
    (update soloRead (plain "www" ["192.0.2.1", "192.0.2.2"])).run remote revalued =
      (.ok ⟨⟨["1000", "1000"]⟩, plain "www" ["192.0.2.2", "192.0.2.2"]⟩, revalued) := by rfl

/-- A second entry of another value gets a record of its own, and one of the value that the record
has got takes it over again. -/
theorem revalued_tracked :
    (∃ t z', (update soloRead (plain "www" ["192.0.2.1", "192.0.2.3"])).run remote revalued =
        (.ok t, z') ∧ t.id.ids.Nodup) ∧
      ∃ t z', (update soloRead (plain "www" ["192.0.2.1", "192.0.2.2"])).run remote revalued =
        (.ok t, z') ∧ ¬ t.id.ids.Nodup := by
  refine ⟨?_, ?_⟩
  · have hrun : (update soloRead (plain "www" ["192.0.2.1", "192.0.2.3"])).run remote revalued =
        (.ok ⟨⟨["1000", "1001"]⟩, plain "www" ["192.0.2.2", "192.0.2.3"]⟩,
          ((update soloRead (plain "www" ["192.0.2.1", "192.0.2.3"])).run remote revalued).2) := by
      rfl
    refine ⟨_, _, hrun, ((write_tracks_once revalued_reachable).2 _ _ _ _ (by decide)
      revalued_issued hrun).1 ?_⟩
    rintro ⟨_, j, _, _, _, a, r, -, -, hj, ha, hr, hduplicates⟩
    have hj : 1 ≤ j := hj
    have hentry : a ∈ (plain "www" ["192.0.2.1", "192.0.2.3"]).entries.drop 1 := by
      refine List.mem_of_getElem? (i := j - 1) ?_
      rw [List.getElem?_drop, Nat.add_sub_cancel' hj]
      exact ha
    have hnone : ∀ r ∈ revalued.records,
        ∀ a ∈ (plain "www" ["192.0.2.1", "192.0.2.3"]).entries.drop 1, r.value ≠ a.value := by
      decide +kernel
    exact hnone r (mem_of_record? hr) a hentry hduplicates.value
  · refine ⟨_, _, update_revalued, ?_⟩
    intro hnodup
    exact ((write_tracks_once revalued_reachable).2 _ _ _ _ (by decide) revalued_issued
      update_revalued).2 (by decide) (by decide) hnodup
      ⟨0, 1, _, "1000", _, _, _, ⟨rfl, rfl⟩, by decide, by decide, rfl, rfl, ⟨rfl, rfl, rfl, rfl⟩⟩

/-- The ID of one record comes back for two entries. -/
theorem update_not_always_tracks_once :
    ¬ ∀ (z : Zone) (prior : TrackedSet) (desired : RecordSet) (t : TrackedSet) (z' : Zone),
      z.Reachable → prior.id.ids.Nodup → desired.fault? = none →
      (update prior desired).run remote z = (.ok t, z') → t.id.ids.Nodup := by
  intro h
  have hnodup :=
    h revalued soloRead _ _ _ revalued_reachable (by decide) (by decide) update_revalued
  revert hnodup
  decide

end Zone

end WeightedDns
