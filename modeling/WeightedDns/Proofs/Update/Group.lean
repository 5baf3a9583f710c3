import WeightedDns.Proofs.Update.Grow
import WeightedDns.Proofs.Update.Keep

/-!
# Groups of records

A set is read from records that share host, type and line. These are the facts about such a group
that do not depend on how far an update has come: what is read of it, what a record carries once
it has been seen to, and where the switch of its weighting is.
-/

namespace WeightedDns

open Lifecycle

namespace Zone

variable {z : Zone} {t : TrackedSet} {domain : String} {records : List StoredRecord}
  {old new : RecordSet} {r : StoredRecord} {e : Entry}

/-! ## What is read of a group -/

/-- What all records share is read from the first one. -/
theorem Tracks.shared  (h : Tracks z domain records t) :
    ∃ first, records[0]? = some first ∧ t.config.host = first.host ∧
      t.config.type = first.type ∧ t.config.line = first.line ∧
      t.config.priority = first.priority ∧
      t.config.weighting = .ofBool (z.isOpen (fullName first.host domain)) ∧
      t.config.entries = records.map (z.entryRead domain first) := by
  obtain ⟨first, hfirst, rfl⟩ := h.read
  exact ⟨first, by rw [← hfirst, List.head?_eq_getElem?], rfl, rfl, rfl, rfl, rfl, rfl⟩

/-- A set that has been read from different IDs is tracked. -/
theorem Tidy.tracks_of_read? (tidy : z.Tidy) {ids : List String} (hnodup : ids.Nodup) {z' : Zone}
    (h : (read? ⟨ids⟩ domain).run remote z = (.ok (some t), z')) :
    z' = z ∧ Tracks z domain (z.fetched ids) t := by
  obtain ⟨hz, hallows, first, rest, hfetched, ht⟩ := tidy.of_read? h
  refine ⟨hz, tidy, hallows, fun r hr => (mem_fetched hr).1, ?_, first, ?_, ?_⟩
  · exact (z.map_id_fetched_sublist ids).nodup hnodup
  · rw [hfetched]
    rfl
  · rw [hfetched, ht]

/-- Where nothing fails, a reading finds the records that are there. -/
theorem Tidy.exists_read? (tidy : z.Tidy) (calm : z.failures = []) {ids : List String}
    (hne : ids ≠ []) (hstored : ∀ id ∈ ids, (z.record? id).isSome) (domain : String) :
    ∃ prior, (read? ⟨ids⟩ domain).run remote z = (.ok (some prior), z) := by
  obtain ⟨first, rest, hfetched⟩ : ∃ first rest, z.fetched ids = first :: rest := by
    refine List.exists_cons_of_ne_nil ?_
    intro hnil
    have hids := map_id_fetched hstored
    rw [hnil] at hids
    exact hne hids.symm
  exact ⟨_, tidy.run_read? calm hfetched domain⟩

/-- The records of a set share host, type and line with what was read of it. -/
def Uniform (records : List StoredRecord) (old : RecordSet) : Prop :=
  ∀ r ∈ records, r.host = old.host ∧ r.type = old.type ∧ r.line = old.line

/-- Records that share host, type and line are read as a group. -/
theorem Tracks.uniform (tracks : Tracks z domain records t)
    (hshared : ∀ r ∈ records, ∀ r' ∈ records,
      r.host = r'.host ∧ r.type = r'.type ∧ r.line = r'.line) : Uniform records t.config := by
  obtain ⟨first, hfirst, hhost, htype, hline, -⟩ := tracks.shared
  intro r hr
  rw [hhost, htype, hline]
  exact hshared r hr first (List.mem_of_getElem? hfirst)

/-! ## What becomes of a group -/

/-- The desired host is the tracked one, letter by letter, or another one in any letter case. -/
def KeepsCase (old new : RecordSet) : Prop :=
  new.host = old.host ∨ ¬ Text.sameLetters new.host old.host

/-- A record of a group that is kept carries its entry once its core has been seen to. -/
theorem reconciled_carries (hhost : r.host = old.host) (htype : r.type = old.type)
    (hline : r.line = old.line) (hdomain : r.domain = new.domain) (hcase : KeepsCase old new) :
    (r.reconciled old new e).Carries new e := by
  rcases StoredRecord.reconciled_cases old new e r with
    ⟨hsame, hshared, hvalue, httl⟩ | ⟨hsame, hmatches⟩ | hrewritten
  · obtain ⟨hhost', htype', hline', -⟩ := Plan.sharedDiffers_eq_false_iff.mp hshared
    rw [hsame]
    exact ⟨hdomain, hhost.trans hhost', htype.trans htype', hvalue, httl, hline.trans hline'⟩
  · obtain ⟨hletters, htype', hvalue, httl, hline', -⟩ := StoredRecord.coreMatches_iff.mp hmatches
    rw [hsame]
    refine ⟨hdomain, ?_, htype', hvalue, httl, hline'⟩
    rcases hcase with heq | hother
    · rw [hhost, heq]
    · rw [hhost, Text.sameLetters_comm] at hletters
      exact absurd hletters hother
  · rw [hrewritten]
    exact ⟨hdomain, rfl, rfl, rfl, rfl, rfl⟩

/-- The first record settles the priority of the set. -/
theorem reconciled_priority (hpriority : r.priority = old.priority) :
    new.priority = none ∨ (r.reconciled old new e).priority = new.priority := by
  rcases StoredRecord.reconciled_cases old new e r with
    ⟨hsame, hshared, -⟩ | ⟨hsame, hmatches⟩ | hrewritten
  · obtain ⟨-, -, -, hpriority'⟩ := Plan.sharedDiffers_eq_false_iff.mp hshared
    rw [hsame]
    exact .inr (hpriority.trans hpriority')
  · rw [hsame]
    exact (StoredRecord.coreMatches_iff.mp hmatches).2.2.2.2.2
  · rw [hrewritten]
    exact .inr rfl

theorem weightingChange_cases (old new : RecordSet) :
    Plan.weightingChange old new = some new.weighting ∨
      (Plan.weightingChange old new = none ∧ Plan.movesGroup old new = false ∧
        old.weighting = new.weighting) := by
  unfold Plan.weightingChange
  split
  · exact .inl rfl
  · rename_i hsame
    simp only [Bool.or_eq_true, bne_iff_ne, not_or, Bool.not_eq_true, Decidable.not_not] at hsame
    exact .inr ⟨rfl, hsame.1, hsame.2⟩

/-- A set that stays where it is has the switch of its weighting where it was read. -/
theorem Tracks.isOpen_eq (tracks : Tracks z domain records t) (hdomain : new.domain = domain)
    (hcase : KeepsCase t.config new) (hstays : Plan.movesGroup t.config new = false) :
    z.isOpen (setName new) = t.config.weighting.isOn := by
  obtain ⟨first, -, hhost, -, -, -, hweighting, -⟩ := tracks.shared
  have hletters : Text.sameLetters t.config.host new.host = true :=
    (Plan.movesGroup_eq_false_iff.mp hstays).1
  have heq : new.host = t.config.host := by
    rcases hcase with heq | hother
    · exact heq
    · rw [Text.sameLetters_comm] at hletters
      exact absurd hletters hother
  rw [hweighting, Switch.isOn_ofBool, setName, heq, hhost, hdomain]

/-- Where weights are set at once, weighting is on already. -/
theorem Tracks.opened (tracks : Tracks z domain records t) (hdomain : new.domain = domain)
    (hcase : KeepsCase t.config new) (hnow : Plan.weightingChange t.config new ≠ some .enabled)
    (hon : new.weighting.isOn = true) : z.isOpen (setName new) = true := by
  rcases weightingChange_cases t.config new with hsome | ⟨-, hstays, hweighting⟩
  · rw [hsome] at hnow
    cases hw : new.weighting with
    | enabled =>
      rw [hw] at hnow
      exact absurd rfl hnow
    | disabled =>
      rw [hw] at hon
      cases hon
  · rw [tracks.isOpen_eq hdomain hcase hstays, hweighting, hon]

/-! ## A group of two records -/

/-- Two records of one host, 1000 and 1001. -/
def pair : Zone := (empty.seed "www" .a "192.0.2.1" 600).seed "www" .a "192.0.2.2" 600

theorem pair_reachable : pair.Reachable := .seed _ _ _ _ (.seed _ _ _ _ .empty)

/-- A set of records of a host that differ only in their values. -/
def plain (host : String) (values : List String) : RecordSet :=
  ⟨"example.com", host, .a, RecordSet.defaultLine, none, .disabled,
    values.map fun v => ⟨v, 600, 1, .enabled, none⟩⟩

/-- What is read of the two records. -/
def pairRead : TrackedSet := ⟨⟨["1000", "1001"]⟩, plain "www" ["192.0.2.1", "192.0.2.2"]⟩

theorem read?_pair : (read? ⟨["1000", "1001"]⟩ "example.com").run remote pair =
    (.ok (some pairRead), pair) := by rfl

end Zone

end WeightedDns
