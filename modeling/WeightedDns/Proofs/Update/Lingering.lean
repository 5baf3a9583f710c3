import WeightedDns.Proofs.Create.Idle
import WeightedDns.Proofs.Update.Apart
import WeightedDns.Proofs.Update.Convergence

/-!
# What an update leaves to be planned again

A plan compares what records share to the letter, but a record is rewritten only where it does not
match, and it matches in any letter case of its host, and with any priority where none is
configured. So what the first record shares can be left as it is although a plan takes it for
changed (`Lingers`), and then it is planned again every time (`Updated.isEmpty_iff`).
-/

namespace WeightedDns

open Lifecycle

/-- What the records of a set share is taken to differ and lingers: the set stays where it is, and
its first record matches the first entry as it is. -/
structure Lingers (old new : RecordSet) : Prop where
  differs : old.sharedDiffers new = true
  stays : Plan.movesGroup old new = false
  priority : new.priority = none ∨ old.priority = new.priority
  first : (old.entries.head?.map fun b => (b.value, b.ttl)) =
    new.entries.head?.map fun e => (e.value, e.ttl)

/-- Of the tracked entries only the first one matters. -/
theorem lingers_entries_iff {old new : RecordSet} {entries : List Entry}
    (h : entries.head? = old.entries.head?) :
    Lingers { old with entries } new ↔ Lingers old new := by
  constructor
  · rintro ⟨hdiffers, hstays, hpriority, hfirst⟩
    exact ⟨hdiffers, hstays, hpriority, h ▸ hfirst⟩
  · rintro ⟨hdiffers, hstays, hpriority, hfirst⟩
    exact ⟨hdiffers, hstays, hpriority, h ▸ hfirst⟩

namespace StoredRecord

/-- What a record shares with others of its set differs from what is desired. -/
def strays (r : StoredRecord) (new : RecordSet) : Bool :=
  r.host != new.host || r.type != new.type || r.line != new.line || r.priority != new.priority

variable {r r' : StoredRecord} {old new : RecordSet} {e : Entry}

theorem strays_of_core_eq (h : r'.core = r.core) : r'.strays new = r.strays new := by
  have hhost : r'.host = r.host := congrArg (·.host) h
  have htype : r'.type = r.type := congrArg (·.type) h
  have hline : r'.line = r.line := congrArg (·.line) h
  have hpriority : r'.priority = r.priority := congrArg (·.priority) h
  rw [strays, strays, hhost, htype, hline, hpriority]

/-- A record that has been checked strays only where it has matched before. -/
theorem strays_reconciled (hchecked : r.strays new = true → old.sharedDiffers new = true) :
    (r.reconciled old new e).strays new = true ↔
      r.strays new = true ∧ coreMatches r new e = true := by
  cases hmatches : coreMatches r new e with
  | true => simp [reconciled, hmatches]
  | false =>
    simp only [Bool.false_eq_true, and_false, iff_false, Bool.not_eq_true]
    rcases reconciled_cases old new e r with ⟨hsame, hshared, -⟩ | ⟨-, hmatches'⟩ | hrewritten
    · rw [hsame, ← Bool.not_eq_true]
      intro hstrays
      rw [hchecked hstrays] at hshared
      cases hshared
    · rw [hmatches] at hmatches'
      cases hmatches'
    · simp [hrewritten, strays, rewritten]

end StoredRecord

namespace Zone

variable {z z' : Zone} {domain : String} {records : List StoredRecord} {t t' : TrackedSet}
  {new : RecordSet} {i : Nat} {e : Entry}

section

variable (tracks : Tracks z domain records t) {first : StoredRecord}
  (hfirst : records[0]? = some first)
include tracks hfirst

/-- What the records of a set share is that of the first one. -/
theorem Tracks.sharedDiffers_eq : t.config.sharedDiffers new = first.strays new := by
  obtain ⟨first', hfirst', hhost, htype, hline, hpriority, -⟩ := tracks.shared
  obtain rfl : first = first' := Option.some.inj (hfirst.symm.trans hfirst')
  rw [RecordSet.sharedDiffers, hhost, htype, hline, hpriority]
  rfl

/-- What a set shares lingers exactly if it differs and the first record matches. -/
theorem Tracks.lingers_iff (he : new.entries[0]? = some e) : Lingers t.config new ↔
    first.strays new = true ∧ coreMatches first new e = true := by
  obtain ⟨first', hfirst', hhost, htype, hline, hpriority, -, hentries⟩ := tracks.shared
  obtain rfl : first = first' := Option.some.inj (hfirst.symm.trans hfirst')
  have hvalues : ((t.config.entries.head?.map fun b => (b.value, b.ttl)) =
      new.entries.head?.map fun e => (e.value, e.ttl)) ↔
        first.value = e.value ∧ first.ttl = e.ttl := by
    rw [List.head?_eq_getElem?, List.head?_eq_getElem?, he, hentries, List.getElem?_map, hfirst]
    simp
  have hstays : Plan.movesGroup t.config new = false ↔
      Text.sameLetters first.host new.host ∧ first.type = new.type ∧ first.line = new.line := by
    rw [← hhost, ← htype, ← hline]
    exact Plan.movesGroup_eq_false_iff
  rw [StoredRecord.coreMatches_iff, ← hpriority, ← tracks.sharedDiffers_eq hfirst]
  constructor
  · intro h
    obtain ⟨hletters, htype', hline'⟩ := hstays.mp h.stays
    obtain ⟨hvalue, httl⟩ := hvalues.mp h.first
    exact ⟨h.differs, hletters, htype', hvalue, httl, hline', h.priority⟩
  · rintro ⟨hdiffers, hletters, htype', hvalue, httl, hline', hpriority'⟩
    exact ⟨hdiffers, hstays.mpr ⟨hletters, htype', hline'⟩, hpriority',
      hvalues.mpr ⟨hvalue, httl⟩⟩

end

namespace Updated

variable (h : Updated z records t.config new t' z')
include h

/-- The entries are read as they are desired, up to their weights. -/
theorem entry (he : new.entries[i]? = some e) : ∃ b, t'.config.entries[i]? = some b ∧
    b.value = e.value ∧ b.ttl = e.ttl ∧ b.status = e.status ∧ b.remarkText = e.remarkText := by
  obtain ⟨first, -, -, -, -, -, -, hentries⟩ := h.tracks.shared
  obtain ⟨r, hr, hadorned, hcore⟩ := h.record he
  obtain ⟨hvalue, httl⟩ : r.value = e.value ∧ r.ttl = e.ttl := by
    rcases hcore with ⟨r₀, -, hcore⟩ | ⟨-, hfits⟩
    · exact StoredRecord.value_ttl_of_reconciled hcore
    · exact ⟨hfits.value, hfits.ttl⟩
  refine ⟨z'.entryRead new.domain first r, ?_, hvalue, httl, hadorned.status, ?_⟩
  · rw [hentries, List.getElem?_map, hr]
    rfl
  · rw [entryRead_remarkText]
    exact hadorned.remark

/-- What is still planned for an entry is what is shared, and its weight. -/
theorem reconcile_eq_nil_iff {b : Entry} {id : String} {j : Nat}
    (hb : t'.config.entries[i]? = some b) (he : new.entries[i]? = some e) :
    Plan.reconcile t'.config new j id b e = [] ↔
      t'.config.sharedDiffers new = false ∧
        (new.weighting = .enabled → e.weight ≠ 0 → b.weight = e.weight) := by
  obtain ⟨b', hb', hvalue, httl, hstatus, hremark⟩ := h.entry he
  obtain rfl : b = b' := Option.some.inj (hb.symm.trans hb')
  rw [Plan.reconcile_eq_nil_iff, Plan.coreChanges_eq_false_iff]
  constructor
  · rintro ⟨⟨hshared, -⟩, hweight, -⟩
    have hstays := Plan.not_movesGroup_of_not_sharedDiffers hshared
    exact ⟨hshared, (Plan.weightChange_eq_none_iff hstays).mp hweight⟩
  · rintro ⟨hshared, hweight⟩
    have hstays := Plan.not_movesGroup_of_not_sharedDiffers hshared
    exact ⟨⟨hshared, hvalue, httl⟩, (Plan.weightChange_eq_none_iff hstays).mpr hweight,
      Plan.remarkChange_eq_none_iff.mpr hremark.symm,
      Plan.statusChange_eq_none_iff.mpr hstatus.symm⟩

/-- The switch is read where it is desired exactly if it is moved there or has been there. -/
theorem weightingChange_eq_none_iff (hshared : t'.config.sharedDiffers new = false) :
    Plan.weightingChange t'.config new = none ↔
      (Plan.weightingChange t.config new = none →
        z.isOpen (setName new) = new.weighting.isOn) := by
  obtain ⟨first, -, hhost, -, -, -, hweighting, -⟩ := h.tracks.shared
  have hsame : t'.config.host = new.host := (Plan.sharedDiffers_eq_false_iff.mp hshared).1
  have hname : fullName first.host new.domain = setName new := by
    rw [setName, ← hsame, hhost]
  have hstays := Plan.not_movesGroup_of_not_sharedDiffers hshared
  have hread : Plan.weightingChange t'.config new = none ↔
      z'.isOpen (setName new) = new.weighting.isOn := by
    rw [Plan.weightingChange_eq_none_iff, hweighting, hname, and_iff_right hstays]
    cases z'.isOpen (setName new) <;> cases new.weighting <;> decide
  rw [hread, h.switched]
  rcases weightingChange_cases t.config new with hsome | ⟨hnone, -⟩
  · rw [hsome]
    simp
  · rw [hnone]
    simp

/-- Nothing is planned for the entries exactly if what is shared is read as desired and the weights
as they have been set. -/
theorem actions_eq_nil_iff (hne : new.entries ≠ []) :
    Plan.actionsFrom t'.config new 0 (t'.config.entries.zip t'.id.ids) new.entries = [] ↔
      t'.config.sharedDiffers new = false ∧ WeightsRead t' new := by
  have hsize : t'.config.entries.length = new.entries.length := h.tracks.size.symm.trans h.size
  have hlength : (t'.config.entries.zip t'.id.ids).length = new.entries.length := by
    rw [List.length_zip, ← h.tracks.size, Nat.min_self, h.size]
  have hzip : ∀ (j : Nat) (e : Entry), new.entries[j]? = some e → ∃ b id,
      t'.config.entries[j]? = some b ∧
        (t'.config.entries.zip t'.id.ids)[j]? = some (b, id) := by
    intro j e he
    obtain ⟨b, hb, -⟩ := h.entry he
    have hlt := (List.getElem?_eq_some_iff.mp he).1
    rw [← h.size] at hlt
    exact ⟨b, t'.id.ids[j], hb,
      List.getElem?_zip_eq_some.mpr ⟨hb, List.getElem?_eq_getElem hlt⟩⟩
  rw [Plan.actionsFrom_eq_nil_iff hlength]
  constructor
  · intro hnil
    have hread : ∀ (j : Nat) (b e : Entry), t'.config.entries[j]? = some b →
        new.entries[j]? = some e → t'.config.sharedDiffers new = false ∧
          (new.weighting = .enabled → e.weight ≠ 0 → b.weight = e.weight) := by
      intro j b e hb he
      obtain ⟨b', id, hb', hpair⟩ := hzip j e he
      obtain rfl : b = b' := Option.some.inj (hb.symm.trans hb')
      exact (h.reconcile_eq_nil_iff hb he).mp (hnil j b id e hpair he)
    -- a set has a first entry, with which what is shared is compared
    have hfirst := List.getElem?_eq_getElem (List.length_pos_iff.mpr hne)
    obtain ⟨b, -, hb, -⟩ := hzip 0 _ hfirst
    exact ⟨(hread 0 b _ hb hfirst).1, fun j b e hb he => (hread j b e hb he).2⟩
  · rintro ⟨hshared, hweights⟩ j b id e hpair he
    have hb := (List.getElem?_zip_eq_some.mp hpair).1
    exact (h.reconcile_eq_nil_iff hb he).mpr ⟨hshared, hweights j b e hb he⟩

section

variable (tracks : Tracks z domain records t) (valid : new.Admissible)
include tracks valid

/-- What the records share still differs from what is desired exactly if it lingers. -/
theorem sharedDiffers_iff : t'.config.sharedDiffers new = true ↔ Lingers t.config new := by
  obtain ⟨first, hfirst, -⟩ := tracks.shared
  obtain ⟨e, he⟩ : ∃ e, new.entries[0]? = some e :=
    ⟨_, List.getElem?_eq_getElem (List.length_pos_iff.mpr valid.entries_nonempty)⟩
  obtain ⟨r, hr, -, hcore⟩ := h.record he
  -- the first entry has had a record before
  have hkept : r.core = (first.reconciled t.config new e).core := by
    rcases hcore with ⟨r₀, hr₀, hcore⟩ | ⟨hnone, -⟩
    · obtain rfl : first = r₀ := Option.some.inj (hfirst.symm.trans hr₀)
      exact hcore
    · have := (List.getElem?_eq_some_iff.mp hfirst).1
      omega
  rw [h.tracks.sharedDiffers_eq hr, StoredRecord.strays_of_core_eq hkept,
    tracks.lingers_iff hfirst he]
  exact StoredRecord.strays_reconciled fun hstrays => by
    rw [tracks.sharedDiffers_eq hfirst, hstrays]

/-- A plan for the same set again is empty exactly if nothing lingers, and switch and weights are
read as they have been set. -/
theorem isEmpty_iff {p : Plan} (hplan : Plan.between t' new = .ok p) : p.isEmpty = true ↔
    ¬ Lingers t.config new ∧
      (Plan.weightingChange t.config new = none → z.isOpen (setName new) = new.weighting.isOn) ∧
      WeightsRead t' new := by
  rw [Plan.between_eq h.tracks.domain_eq h.tracks.size] at hplan
  obtain rfl := Except.ok.inj hplan
  simp only [Plan.isEmpty, Bool.and_eq_true, List.isEmpty_iff, Option.isNone_iff_eq_none]
  rw [h.actions_eq_nil_iff valid.entries_nonempty, ← h.sharedDiffers_iff tracks valid,
    Bool.not_eq_true]
  constructor
  · rintro ⟨⟨hshared, hweights⟩, hswitch⟩
    exact ⟨hshared, (h.weightingChange_eq_none_iff hshared).mp hswitch, hweights⟩
  · rintro ⟨hshared, hswitch, hweights⟩
    exact ⟨⟨hshared, hweights⟩, (h.weightingChange_eq_none_iff hshared).mpr hswitch⟩

end

end Updated

/-! ## The plan after an update -/

/-- A set that has been read from the zone can be planned to be updated. -/
theorem Reread.between_eq {ids : List String} (h : Reread z' new ids t) :
    Plan.between t new = .ok ⟨Plan.actionsFrom t.config new 0
      (t.config.entries.zip t.id.ids) new.entries, Plan.weightingChange t.config new⟩ := by
  have hsize := h.entries.symm
  obtain ⟨first, rest, -, rfl⟩ := h.read
  exact Plan.between_eq rfl hsize

/-- A set whose entries that are kept have records of their own might as well track every record
once. -/
theorem exists_updated_of_apart {zr : Zone} (tidy : z.Tidy) (calm : z.failures = [])
    {ids : List String} {prior : TrackedSet}
    (hread : (read? ⟨ids⟩ domain).run remote z = (.ok (some prior), zr))
    (apart : Apart prior.id.ids new.entries.length) (valid : new.fault? = none)
    (hdomain : new.domain = domain) (hrun : (update prior new).run remote z = (.ok t, z')) :
    ∃ records once, Tracks z domain records once ∧ (∀ r ∈ records, r ∈ z.fetched ids) ∧
      once.config.host = prior.config.host ∧
      (Lingers once.config new ↔ Lingers prior.config new) ∧
      Plan.weightingChange once.config new = Plan.weightingChange prior.config new ∧
      Updated z records once.config new t z' := by
  obtain ⟨records, once, tracks, hfrom, hconfig, hhead, hsame⟩ :=
    exists_tracks_of_apart tidy calm hread apart valid hdomain
  refine ⟨records, once, tracks, hfrom, ?_, ?_, ?_, ?_⟩
  · rw [hconfig]
  · rw [hconfig]
    exact lingers_entries_iff hhead
  · rw [hconfig]
    rfl
  · exact tracks.updated_of_run valid hdomain (hsame.trans hrun)

/-- After reading records of a zone and updating them while nothing fails, nothing is left to plan
exactly if every entry that is kept has had a record of its own, nothing lingers, and switch and
weights are read as they have been set. In a zone of one domain that a listing reaches, these are
read so for a group of records, as long as the host keeps its spelling. -/
theorem update_leaves_no_plan_iff {zr : Zone} (h : z.Reachable) (calm : z.failures = [])
    {ids : List String} {prior : TrackedSet}
    (hread : (read? ⟨ids⟩ domain).run remote z = (.ok (some prior), zr)) {desired : RecordSet}
    (valid : desired.fault? = none) (hdomain : desired.domain = domain)
    (hrun : (update prior desired).run remote zr = (.ok t, z')) :
    ∃ p, Plan.between t desired = .ok p ∧
      (p.isEmpty = true ↔ Apart prior.id.ids desired.entries.length ∧
        ¬ Lingers prior.config desired ∧
        (Plan.weightingChange prior.config desired = none →
          z.isOpen (setName desired) = desired.weighting.isOn) ∧ WeightsRead t desired) ∧
      (Apart prior.id.ids desired.entries.length → (∀ r ∈ z.records, r.domain = domain) →
        z.records.length ≤ 49950 →
        (∀ r ∈ z.fetched ids, ∀ r' ∈ z.fetched ids,
          r.host = r'.host ∧ r.type = r'.type ∧ r.line = r'.line) →
        (desired.host = prior.config.host ∨
          ¬ Text.sameLetters desired.host prior.config.host) →
        (p.isEmpty = true ↔ ¬ Lingers prior.config desired)) := by
  obtain ⟨rfl, -, first, rest, hfetched, hprior⟩ := h.tidy.of_read? hread
  obtain ⟨admissible, -, _, _, _, -, -, hreread⟩ := exists_concluded h.tidy hrun
  have hplan := hreread.between_eq
  have hstored : ∀ id ∈ prior.id.ids, (zr.record? id).isSome := by
    intro id hid
    rw [hprior, reading, ← hfetched, map_id_fetched_eq_filter] at hid
    exact (List.mem_filter.mp hid).2
  refine ⟨_, hplan, ⟨?_, ?_⟩, ?_⟩
  · intro hempty
    have hnil := hempty
    simp only [Plan.isEmpty, Bool.and_eq_true, List.isEmpty_iff] at hnil
    have apart := apart_of_planned_nil h.tidy calm hstored hrun hnil.1
    obtain ⟨records, once, tracks, -, -, hlingers, hswitch, hupdated⟩ :=
      exists_updated_of_apart h.tidy calm hread apart valid hdomain hrun
    rw [← hlingers, ← hswitch]
    exact ⟨apart, (hupdated.isEmpty_iff tracks admissible hplan).mp hempty⟩
  · rintro ⟨apart, hleft⟩
    obtain ⟨records, once, tracks, -, -, hlingers, hswitch, hupdated⟩ :=
      exists_updated_of_apart h.tidy calm hread apart valid hdomain hrun
    rw [← hlingers, ← hswitch] at hleft
    exact (hupdated.isEmpty_iff tracks admissible hplan).mpr hleft
  · intro apart hall hreach hshared hcase
    obtain ⟨records, once, tracks, hfrom, hhost, hlingers, -, hupdated⟩ :=
      exists_updated_of_apart h.tidy calm hread apart valid hdomain hrun
    have uniform := tracks.uniform fun r hr r' hr' => hshared r (hfrom r hr) r' (hfrom r' hr')
    have hcase : KeepsCase once.config desired := by
      rw [KeepsCase, hhost]
      exact hcase
    have hwalk : z'.records.length ≤ walkReach := by
      -- an update adds at most one record for an entry
      have hgrown := hupdated.covered.length
      have hbound := admissible.entries_bounded
      have hfits : 49950 + RecordSet.entryLimit ≤ walkReach := by decide
      omega
    have settled := hupdated.settled tracks uniform hdomain hall hwalk hcase
    rw [hupdated.isEmpty_iff tracks admissible hplan, hlingers]
    refine and_iff_left ⟨?_, settled.toStanding.weightsRead hwalk⟩
    intro hnone
    rcases weightingChange_cases once.config desired with hsome | ⟨-, hstays, hweighting⟩
    · rw [hnone] at hsome
      cases hsome
    · rw [tracks.isOpen_eq hdomain hcase hstays, hweighting]

/-- A zone with one record that has a priority. -/
def mail : Zone :=
  (empty.answer (.addRecord ⟨"example.com", "@", .mx, "mx.example.com", 600,
    RecordSet.defaultLine, some 10⟩)).2

/-- The record without a priority. -/
def unranked : RecordSet := { plain "@" ["mx.example.com"] with type := .mx }

/-- What is read of the record. -/
def mailRead : TrackedSet := ⟨⟨["1000"]⟩, { unranked with priority := some 10 }⟩

/-- A set that moves is not planned again; one whose priority is taken away is. -/
theorem moved_not_planned_again :
    (∃ t z' p, (update pairRead relocated).run remote pair = (.ok t, z') ∧
      Plan.between t relocated = .ok p ∧ p.isEmpty = true) ∧
    ∃ p, (update mailRead unranked).run remote mail = (.ok mailRead, mail) ∧
      Plan.between mailRead unranked = .ok p ∧ p.isEmpty = false := by
  refine ⟨?_, ?_⟩
  · obtain ⟨t, z', hrun⟩ : ∃ t z', (update pairRead relocated).run remote pair = (.ok t, z') :=
      ⟨_, _, rfl⟩
    obtain ⟨p, hplan, -, hempty⟩ :=
      update_leaves_no_plan_iff pair_reachable rfl read?_pair (by decide) rfl hrun
    refine ⟨t, z', p, hrun, hplan, ?_⟩
    rw [hempty (by decide) (by decide) (by decide) (by decide) (.inr (by decide))]
    intro hlingers
    have hstays := hlingers.stays
    revert hstays
    decide
  · have hread : (read? ⟨["1000"]⟩ "example.com").run remote mail =
        (.ok (some mailRead), mail) := by rfl
    have hrun : (update mailRead unranked).run remote mail = (.ok mailRead, mail) := by rfl
    obtain ⟨p, hplan, hempty, -⟩ :=
      update_leaves_no_plan_iff (.answer _ .empty) rfl hread (by decide) rfl hrun
    refine ⟨p, hrun, hplan, ?_⟩
    rw [← Bool.not_eq_true, hempty]
    rintro ⟨-, hnone, -⟩
    exact hnone ⟨by decide, by decide, .inl rfl, by decide⟩

/-- The records match a host in another letter case and stay as they are, and the same update is
planned again. -/
theorem update_not_always_without_plan :
    ¬ ∀ (z z' : Zone) (ids : List String) (domain : String) (prior t : TrackedSet)
      (desired : RecordSet), z.Reachable → z.failures = [] →
      (∀ r ∈ z.fetched ids, ∀ r' ∈ z.fetched ids,
        r.host = r'.host ∧ r.type = r'.type ∧ r.line = r'.line ∧ r.priority = r'.priority) →
      (read? ⟨ids⟩ domain).run remote z = (.ok (some prior), z) → desired.fault? = none →
      desired.domain = domain → (update prior desired).run remote z = (.ok t, z') →
      ∃ p, Plan.between t desired = .ok p ∧ p.isEmpty = true := by
  intro h
  have hrun : (update pairRead (plain "WWW" ["192.0.2.1", "192.0.2.2"])).run remote pair =
      (.ok pairRead, pair) := by rfl
  obtain ⟨p, hplan, hempty⟩ := h pair pair ["1000", "1001"] "example.com" pairRead pairRead _
    pair_reachable rfl (by decide) read?_pair (by decide) rfl hrun
  have hagain : (Plan.between pairRead (plain "WWW" ["192.0.2.1", "192.0.2.2"])).toOption.all
      (fun p => !p.isEmpty) = true := by decide
  rw [hplan, Except.toOption, Option.all_some, hempty] at hagain
  cases hagain

end Zone

end WeightedDns
