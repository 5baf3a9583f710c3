import WeightedDns.Proofs.Update.Outcome
import WeightedDns.Proofs.Update.Standing

/-!
# Convergence of updates

While nothing fails, an update of a set of a zone succeeds and returns the desired set, which the
zone holds then, and a second update to the same set has nothing left to write
(`update_converges`). The second half
holds of every set that is settled (`Settled.update_idle`), however that has come about.
-/

namespace WeightedDns

open Lifecycle

namespace Zone

/-- The zone has the set as it is configured, its switch and all, and the tracked set is what is
read of it. -/
structure Settled (z : Zone) (s : RecordSet) (t : TrackedSet) : Prop
    extends Standing z s t where
  opened : z.isOpen (setName s) = s.weighting.isOn
  reach : z.records.length ≤ walkReach

variable {z : Zone} {s : RecordSet} {t : TrackedSet}

namespace Settled

/-! ## Nothing left to do -/

theorem weighting (h : Settled z s t) (valid : s.Admissible) :
    t.config.weighting = s.weighting := by
  obtain ⟨-, -, -, hweighting, -⟩ := h.toStanding.first valid
  rw [hweighting, h.opened]
  exact Switch.ofBool_isOn _

theorem remaining_eq_nil (h : Settled z s t) (valid : s.Admissible) : remaining t s = [] := by
  refine remaining_eq_nil_iff.mpr ⟨?_, ?_⟩
  · intro i b e id hb he
    obtain ⟨b', hb', -, -, -, -, hweight⟩ := h.toStanding.entry he
    obtain rfl : b = b' := Option.some.inj ((List.getElem?_zip_eq_some.mp hb).1.symm.trans hb')
    rw [h.toStanding.weightChange_eq valid, if_neg]
    intro hplanned
    simp only [Bool.and_eq_true, bne_iff_ne] at hplanned
    exact hplanned.2 (hweight h.reach hplanned.1.1 hplanned.1.2).symm
  · rw [h.toStanding.weightingChange_eq valid, if_pos h.opened]

/-- An update of a settled set to itself only reads, and returns the set. -/
theorem update_idle (h : Settled z s t) (calm : z.failures = []) (valid : s.fault? = none) :
    (update t s).Ensures remote (fun c _ => c.writes = false) (fun t' z' => t' = t ∧ z' = z)
      (fun _ _ => False) z := by
  have hnil := h.remaining_eq_nil (RecordSet.fault?_eq_none_iff.mp valid)
  refine h.toStanding.ensures_update calm valid (fun hon => h.opened.trans hon) ?_ ?_
  · rintro c z' (hreads | hremaining)
    · exact hreads
    · exact absurd hnil hremaining
  · intro t' z' _ hsame
    exact hsame hnil

end Settled

/-! ## Reaching the desired set -/

section

variable {domain : String} {records : List StoredRecord} {new : RecordSet}

theorem Tracks.smooth (tracks : Tracks z domain records t) (uniform : Uniform records t.config)
    (calm : z.failures = []) (hdomain : new.domain = domain)
    (hall : ∀ r ∈ z.records, r.domain = domain) (hreach : z.records.length ≤ walkReach)
    (hcase : KeepsCase t.config new) : Smooth z records t.config new where
  calm := calm
  named i r e hr he := by
    have hmem := List.mem_of_getElem? hr
    obtain ⟨hhost, htype, hline⟩ := uniform r hmem
    have hrdomain := (hall r (tracks.mem r hmem)).trans hdomain.symm
    have hcarries := reconciled_carries (e := e) hhost htype hline hrdomain hcase
    rw [hcarries.host, hrdomain, setName]
  opened := tracks.opened hdomain hcase
  domain r hr := (hall r hr).trans hdomain.symm
  reach := hreach

/-- An update that has succeeded leaves the records of the set that it returns. -/
theorem Updated.isSome_of_mem {old : RecordSet} {z' : Zone} {t' : TrackedSet}
    (h : Updated z records old new t' z') : ∀ id ∈ t'.id.ids, (z'.record? id).isSome := by
  have hmem := h.covered.isSome_of_mem
  rw [← h.size, List.take_length] at hmem
  exact hmem

/-- The record of an entry is found in its place: the one it had before, seen to, or a new one. -/
theorem Updated.record {old : RecordSet} {z' : Zone} {t' : TrackedSet}
    (h : Updated z records old new t' z') {i : Nat} {e : Entry} (he : new.entries[i]? = some e) :
    ∃ r, (z'.fetched t'.id.ids)[i]? = some r ∧ Adorned new [] e r ∧
      ((∃ r₀, records[i]? = some r₀ ∧ r.core = (r₀.reconciled old new e).core) ∨
        records.length ≤ i ∧ r.Fits new e) := by
  rw [fetched_getElem? h.isSome_of_mem]
  rcases Nat.lt_or_ge i records.length with hi | hi
  · have hr := List.getElem?_eq_getElem hi
    obtain ⟨hid, r, hr', hcore, hadorned⟩ := h.covered.kept i _ e hr he
    exact ⟨r, by rw [hid, Option.bind_some, hr'], hadorned, .inl ⟨_, hr, hcore⟩⟩
  · obtain ⟨id, r, hid, hr, hfits, hadorned⟩ := h.covered.made i e hi he
    exact ⟨r, by rw [hid, Option.bind_some, hr], hadorned, .inr ⟨hi, hfits⟩⟩

/-- What an update leaves of a group of records of the zone is settled. -/
theorem Updated.settled {z' : Zone} {t' : TrackedSet} (h : Updated z records t.config new t' z')
    (tracks : Tracks z domain records t) (uniform : Uniform records t.config)
    (hdomain : new.domain = domain) (hall : ∀ r ∈ z.records, r.domain = domain)
    (hreach : z'.records.length ≤ walkReach) (hcase : KeepsCase t.config new) :
    Settled z' new t' := by
  refine ⟨⟨h.tracks, h.size, ?_⟩, ?_, hreach⟩
  · intro i e he
    obtain ⟨r, hr, hadorned, hkept | ⟨-, hfits⟩⟩ := h.record he
    · obtain ⟨r₀, hr₀, hcore⟩ := hkept
      have hmem := List.mem_of_getElem? hr₀
      obtain ⟨hhost, htype, hline⟩ := uniform r₀ hmem
      have hcarries := reconciled_carries (e := e) hhost htype hline
        ((hall r₀ (tracks.mem r₀ hmem)).trans hdomain.symm) hcase
      refine ⟨r, hr, hcarries.of_core_eq hcore, hadorned, ?_⟩
      rintro rfl
      obtain ⟨first, hfirst, -, -, -, hpriority, -⟩ := tracks.shared
      obtain rfl : r₀ = first := Option.some.inj (hr₀.symm.trans hfirst)
      have hsame : r.priority = (r₀.reconciled t.config new e).priority :=
        congrArg (·.priority) hcore
      rw [hsame]
      exact reconciled_priority hpriority.symm
    · exact ⟨r, hr, hfits.toCarries, hadorned, fun _ => hfits.priority⟩
  · rw [h.switched]
    rcases weightingChange_cases t.config new with hsome | ⟨hnone, hstays, hweighting⟩
    · rw [hsome]
      rfl
    · rw [hnone, ← hweighting]
      exact tracks.isOpen_eq hdomain hcase hstays

end

/-- The entries that are kept keep their IDs. -/
theorem Updated.take_ids {records : List StoredRecord} {old new : RecordSet} {z' : Zone}
    (h : Updated z records old new t z') :
    t.id.ids.take records.length = (records.map (·.id)).take new.entries.length := by
  -- index by index; beyond either length both sides end
  refine List.ext_getElem? fun i => ?_
  rw [List.getElem?_take, List.getElem?_take]
  split
  · rename_i hi
    split
    · rename_i hi'
      have hr := List.getElem?_eq_getElem hi
      obtain ⟨hid, -⟩ := h.covered.kept i _ _ hr (List.getElem?_eq_getElem hi')
      rw [hid, List.getElem?_map, hr]
      rfl
    · rename_i hi'
      rw [List.getElem?_eq_none]
      rw [h.size]
      omega
  · rename_i hi
    split
    · rw [List.getElem?_eq_none]
      rw [List.length_map]
      omega
    · rfl

/-- While nothing fails, reading records of a zone that share host, type and line and updating
them to any set of the zone succeeds: the set comes back as desired, record by record, and the zone
holds it, with its weighting on or off as desired. A second update only reads. -/
theorem update_converges (h : z.Reachable) (calm : z.failures = []) {domain : String}
    (hall : ∀ r ∈ z.records, r.domain = domain) (hreach : z.records.length ≤ 49950)
    {ids : List String} (hne : ids ≠ []) (hnodup : ids.Nodup)
    (hstored : ∀ id ∈ ids, (z.record? id).isSome)
    (hshared : ∀ r ∈ z.fetched ids, ∀ r' ∈ z.fetched ids,
      r.host = r'.host ∧ r.type = r'.type ∧ r.line = r'.line) :
    ∃ prior, (read? ⟨ids⟩ domain).run remote z = (.ok (some prior), z) ∧
      ∀ desired : RecordSet, desired.fault? = none → desired.domain = domain →
        (desired.host = prior.config.host ∨
          ¬ Text.sameLetters desired.host prior.config.host) →
        ∃ t z', (update prior desired).run remote z = (.ok t, z') ∧
          t.id.ids.length = desired.entries.length ∧
          t.id.ids.take ids.length = ids.take desired.entries.length ∧
          t.config.host = desired.host ∧ t.config.type = desired.type ∧
          t.config.line = desired.line ∧ t.config.weighting = desired.weighting ∧
          (∀ (i : Nat) (e : Entry), desired.entries[i]? = some e →
            ∃ b, t.config.entries[i]? = some b ∧ b.value = e.value ∧ b.ttl = e.ttl ∧
              b.status = e.status ∧ b.remarkText = e.remarkText ∧
              (desired.weighting.isOn = true → e.weight ≠ 0 → b.weight = e.weight)) ∧
          z'.Holds desired t ∧ z'.isOpen (setName desired) = desired.weighting.isOn ∧
          (update t desired).run remote z' = (.ok t, z') ∧
          ∀ x ∈ (update t desired).steps remote z', x.1.writes = false := by
  obtain ⟨prior, hread⟩ := h.tidy.exists_read? calm hne hstored domain
  obtain ⟨-, tracks⟩ := h.tidy.tracks_of_read? hnodup hread
  have uniform := tracks.uniform hshared
  refine ⟨prior, hread, ?_⟩
  intro desired valid hdomain hcase
  have admissible := RecordSet.fault?_eq_none_iff.mp valid
  have hwalk : z.records.length ≤ walkReach := Nat.le_trans hreach (by decide)
  have smooth := tracks.smooth uniform calm hdomain hall hwalk hcase
  obtain ⟨t, z', hrun, hupdated⟩ := smooth.exists_updated tracks valid hdomain
  have hcovered := hupdated.covered
  -- an update adds at most one record for an entry, and sets of that size stay within a walk
  have hwalk' : z'.records.length ≤ walkReach := by
    have hgrown := hcovered.length
    have hbound := admissible.entries_bounded
    have hfits : 49950 + RecordSet.entryLimit ≤ walkReach := by decide
    omega
  have settled := hupdated.settled tracks uniform hdomain hall hwalk' hcase
  have calm' : z'.failures = [] := hcovered.failures.trans calm
  obtain ⟨hhost, htype, hline, -⟩ := settled.toStanding.first admissible
  have hidle := settled.update_idle calm' valid
  obtain ⟨t', z'', hagain, rfl, rfl⟩ := hidle.exists_run
  have hholds := settled.toStanding.holds calm' fun hon => settled.opened.trans hon
  refine ⟨t', z'', hrun, hupdated.size, ?_, hhost, htype, hline, settled.weighting admissible, ?_,
    hholds, settled.opened, hagain, ?_⟩
  · have htake := hupdated.take_ids
    rw [map_id_fetched hstored] at htake
    have hlength := congrArg List.length (map_id_fetched hstored)
    rw [List.length_map] at hlength
    rw [← htake, hlength]
  · intro i e he
    obtain ⟨b, hb, hvalue, httl, hstatus, hremark, hweight⟩ := settled.toStanding.entry he
    exact ⟨b, hb, hvalue, httl, hstatus, hremark, hweight settled.reach⟩
  · exact hidle.steps

/-- Three weighted entries of another host; the first has the value of record 1001. -/
def relocated : RecordSet :=
  ⟨"example.com", "api", .a, RecordSet.defaultLine, none, .enabled,
    [⟨"192.0.2.2", 600, 10, .enabled, none⟩, ⟨"192.0.2.1", 300, 20, .disabled, some "spare"⟩,
      ⟨"192.0.2.3", 600, 0, .enabled, none⟩]⟩

/-- The second record is stored with its weight, its remark and its status. -/
theorem pair_converges :
    ∃ t z', (update pairRead relocated).run remote pair = (.ok t, z') ∧
      t.id.ids.length = 3 ∧ t.id.ids.take 2 = ["1000", "1001"] ∧
      (∃ id r, t.id.ids[1]? = some id ∧ z'.record? id = some r ∧ r.host = "api" ∧
        r.value = "192.0.2.1" ∧ r.ttl = 300 ∧ r.weight = some 20 ∧ r.status = .disabled ∧
        r.remark.getD "" = "spare") ∧
      z'.isOpen "api.example.com" = true ∧
      (read? t.id "example.com").run remote z' = (.ok (some t), z') ∧
      (update t relocated).run remote z' = (.ok t, z') := by
  have hall : ∀ r ∈ pair.records, r.domain = "example.com" := by decide
  have hne : ["1000", "1001"] ≠ [] := by decide
  obtain ⟨prior, hread, hupdates⟩ := update_converges pair_reachable rfl hall (by decide) hne
    (by decide) (by decide) (by decide)
  obtain rfl : prior = pairRead := by simpa using hread.symm.trans read?_pair
  obtain ⟨t, z', hrun, hsize, hkept, -, -, -, -, -, hholds, hopen, hagain, -⟩ :=
    hupdates relocated (by decide) rfl (.inr (by decide))
  obtain ⟨id, r, hid, hr, hconfigured⟩ := hholds.record 1 _ rfl
  have hname : setName relocated = "api.example.com" := by decide
  rw [hname] at hopen
  exact ⟨t, z', hrun, hsize, hkept,
    ⟨id, r, hid, hr, hconfigured.host, hconfigured.value, hconfigured.ttl,
      hconfigured.weight rfl (by decide), hconfigured.status, hconfigured.remark⟩,
    hopen, hholds.read, hagain⟩

end Zone

end WeightedDns
