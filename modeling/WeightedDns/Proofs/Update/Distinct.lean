import Mathlib.Data.List.Nodup
import WeightedDns.Proofs.Update.Group
import WeightedDns.Proofs.Update.Outcome

/-!
# Records that are told apart

The records of a zone are told apart by host, type and value. An update within a group keeps them
apart at every step, unless an entry is to get the value of a record that is seen to only after it
(`update_distinct_iff`).
-/

namespace WeightedDns

open Lifecycle

/-- Host, type and value of a record. -/
def StoredRecord.triple (r : StoredRecord) : String × RecordType × String :=
  (r.host, r.type, r.value)

namespace Zone

/-- No two records have the same host, type and value. -/
def Distinct (z : Zone) : Prop := (z.records.map (·.triple)).Nodup

instance (z : Zone) : Decidable z.Distinct :=
  inferInstanceAs (Decidable (z.records.map (·.triple)).Nodup)

/-- An entry is to get the value of a record that is seen to only after it. -/
def Overtakes (old new : RecordSet) : Prop :=
  ∃ (i j : Nat) (a b : Entry), i < j ∧ new.entries[i]? = some a ∧ old.entries[j]? = some b ∧
    a.value = b.value

section

variable {z z' : Zone}

theorem Tidy.distinct_iff (tidy : z.Tidy) :
    z.Distinct ↔ ∀ r ∈ z.records, ∀ r' ∈ z.records, r.triple = r'.triple → r = r' := by
  constructor
  · intro h r hr r' hr' heq
    exact List.inj_on_of_nodup_map h hr hr' heq
  · intro h
    exact List.Nodup.map_on h (List.Nodup.of_map _ tidy.ids_nodup)

theorem Distinct.of_cores (h : z.Distinct) (hcores : z'.cores = z.cores) : z'.Distinct := by
  have htriples := congrArg (List.map (·.triple)) hcores
  rw [cores, cores, List.map_map, List.map_map] at htriples
  show (z'.records.map (·.triple)).Nodup
  exact htriples ▸ h

theorem Distinct.of_subset (h : z.Distinct) (tidy : z.Tidy) (tidy' : z'.Tidy)
    (hsub : z'.records ⊆ z.records) : z'.Distinct := by
  rw [tidy'.distinct_iff]
  intro r hr r' hr' heq
  exact tidy.distinct_iff.mp h r (hsub hr) r' (hsub hr') heq

end

/-! ## Zones on the way -/

/-- The records with these IDs have the values of the entries in their order, and no other record
has one of those values. -/
structure Allotted (z₀ : Zone) (s : RecordSet) (ids : List String) (z : Zone) : Prop where
  tidy : z.Tidy
  cases : ∀ r ∈ z.records,
    (∃ (i : Nat) (e : Entry), ids[i]? = some r.id ∧ s.entries[i]? = some e ∧
      r.triple = (s.host, s.type, e.value)) ∨
    (r ∈ z₀.records ∧ ∀ (i : Nat) (e : Entry), i < ids.length → s.entries[i]? = some e →
      r.triple ≠ (s.host, s.type, e.value))

theorem Allotted.distinct {z₀ z : Zone} {s : RecordSet} {ids : List String}
    (h : Allotted z₀ s ids z) (tidy₀ : z₀.Tidy) (distinct : z₀.Distinct) (valid : s.Admissible) :
    z.Distinct := by
  rw [h.tidy.distinct_iff]
  intro r hr r' hr' heq
  rcases h.cases r hr with ⟨i, e, hid, he, ht⟩ | ⟨hold, hfree⟩
  · -- two records of entries share a value only as records of one entry
    rcases h.cases r' hr' with ⟨j, e', hid', he', ht'⟩ | ⟨hold', hfree'⟩
    · have hvalue : e.value = e'.value :=
        congrArg (·.2.2) (ht.symm.trans (heq.trans ht'))
      obtain rfl := valid.index_eq he he' hvalue
      have hsame : r.id = r'.id := Option.some.inj (hid.symm.trans hid')
      have hfound := h.tidy.record?_of_mem hr
      rw [hsame, h.tidy.record?_of_mem hr'] at hfound
      exact (Option.some.inj hfound).symm
    · have hi := (List.getElem?_eq_some_iff.mp hid).1
      exact absurd (heq.symm.trans ht) (hfree' i e hi he)
  · rcases h.cases r' hr' with ⟨j, e', hid', he', ht'⟩ | ⟨hold', -⟩
    · have hj := (List.getElem?_eq_some_iff.mp hid').1
      exact absurd (heq.trans ht') (hfree j e' hj he')
    · exact tidy₀.distinct_iff.mp distinct r hold r' hold' heq

section

variable {z₀ z zb : Zone} {domain : String} {records : List StoredRecord} {t : TrackedSet}
  {old new : RecordSet}

theorem reconciled_triple {r : StoredRecord} (hhost : r.host = new.host)
    (htype : r.type = new.type) (e : Entry) :
    (r.reconciled old new e).triple = (new.host, new.type, e.value) := by
  have hvalue : (r.reconciled old new e).value = e.value := StoredRecord.reconciled_value
  have hgroup : (r.reconciled old new e).host = new.host ∧
      (r.reconciled old new e).type = new.type := by
    unfold StoredRecord.reconciled
    split
    · exact ⟨rfl, rfl⟩
    · exact ⟨hhost, htype⟩
  rw [StoredRecord.triple, hvalue, hgroup.1, hgroup.2]

/-- What keeps the records of a group apart: no record that is not tracked has the value of an
entry, and no entry overtakes a tracked record. -/
structure Clear (z₀ : Zone) (records : List StoredRecord) (new : RecordSet) : Prop where
  group : ∀ r ∈ records, r ∈ z₀.records ∧ r.host = new.host ∧ r.type = new.type
  free : ∀ r ∈ z₀.records, r.id ∉ records.map (·.id) → ∀ e ∈ new.entries,
    r.triple ≠ (new.host, new.type, e.value)
  ahead : ∀ (i j : Nat) (e : Entry) (r : StoredRecord), i < j → new.entries[i]? = some e →
    records[j]? = some r → e.value ≠ r.value

/-- A tracked record that has been seen to has the value of its entry. -/
theorem Clear.triple_eq (clear : Clear z₀ records new) {i : Nat} {r s : StoredRecord} {e : Entry}
    (hs : records[i]? = some s) (hcore : r.core = (s.reconciled old new e).core) :
    r.triple = (new.host, new.type, e.value) := by
  obtain ⟨-, hhost, htype⟩ := clear.group s (List.mem_of_getElem? hs)
  have hsame : r.triple = (s.reconciled old new e).triple := congrArg (·.triple) hcore
  rw [hsame, reconciled_triple hhost htype]

theorem Stage.allotted {n : Nat} (h : Stage z₀ records old new n z) (clear : Clear z₀ records new)
    (hn : n ≤ new.entries.length) : Allotted z₀ new ((records.map (·.id)).take n) z := by
  refine ⟨h.tidy, ?_⟩
  intro r hr
  rcases h.record_cases hn hr with ⟨i, s, e, hi, hs, hid, he, hcore⟩ | ⟨j, hj, hrec⟩ | ⟨hid, hold⟩
  · refine .inl ⟨i, e, ?_, he, clear.triple_eq hs hcore⟩
    rw [List.getElem?_take_of_lt hi, List.getElem?_map, hs, Option.map_some, hid]
  · -- a record that is still to be seen to has no value of an entry before it
    refine .inr ⟨(clear.group r (List.mem_of_getElem? hrec)).1, ?_⟩
    intro i e hi he heq
    rw [List.length_take] at hi
    exact clear.ahead i j e r (by omega) he hrec (congrArg (·.2.2) heq).symm
  · refine .inr ⟨hold, ?_⟩
    intro i e _ he
    exact clear.free r hold hid e (List.mem_of_getElem? he)

theorem Grown.allotted {placed : List (Entry × String)} (h : Grown zb new placed z)
    (hb : Stage z₀ records old new records.length zb) (clear : Clear z₀ records new)
    (hlength : records.length ≤ new.entries.length)
    (hplaced : placed.map (·.1) <+: new.entries.drop records.length) :
    Allotted z₀ new (records.map (·.id) ++ placed.map (·.2)) z := by
  refine ⟨h.tidy, ?_⟩
  intro r hr
  have hfound := h.tidy.record?_of_mem hr
  by_cases hid : r.id ∈ placed.map (·.2)
  · obtain ⟨q, hq, hsame⟩ := List.mem_map.mp hid
    obtain ⟨k, hk⟩ := List.mem_iff_getElem?.mp hq
    obtain ⟨r', hr', hfits⟩ := h.made q hq
    rw [hsame] at hr'
    obtain rfl : r = r' := Option.some.inj (hfound.symm.trans hr')
    refine .inl ⟨records.length + k, q.1, ?_, getElem?_of_placed hplaced hk, ?_⟩
    · rw [List.getElem?_append_right (by simp), List.length_map, Nat.add_sub_cancel_left,
        List.getElem?_map, hk, Option.map_some, hsame]
    · rw [StoredRecord.triple, hfits.host, hfits.type, hfits.value]
  · rw [h.others r.id hid] at hfound
    rcases hb.record_cases hlength (mem_of_record? hfound) with
      ⟨i, s, e, hi, hs, hid', he, hcore⟩ | ⟨i, hi, hrec⟩ | ⟨hid', hold⟩
    · refine .inl ⟨i, e, ?_, he, clear.triple_eq hs hcore⟩
      rw [List.getElem?_append_left (by simpa using hi), List.getElem?_map, hs, Option.map_some,
        hid']
    · have := (List.getElem?_eq_some_iff.mp hrec).1
      omega
    · refine .inr ⟨hold, ?_⟩
      intro i e _ he
      exact clear.free r hold hid' e (List.mem_of_getElem? he)

theorem Shrunk.subset {gone : List String} (h : Shrunk zb gone z) : z.records ⊆ zb.records := by
  intro r hr
  have hfound := h.tidy.record?_of_mem hr
  by_cases hid : r.id ∈ gone
  · rcases h.gone r.id hid with hnone | hsame
    · rw [hnone] at hfound
      cases hfound
    · rw [hsame] at hfound
      exact mem_of_record? hfound
  · rw [h.others r.id hid] at hfound
    exact mem_of_record? hfound

/-- Every zone on the way keeps its records apart. -/
theorem Passes.distinct (h : Passes z₀ records old new z) (tidy₀ : z₀.Tidy)
    (distinct : z₀.Distinct) (clear : Clear z₀ records new) (valid : new.Admissible) :
    z.Distinct := by
  induction h with
  | stage hn hn' hstage => exact (hstage.allotted clear hn').distinct tidy₀ distinct valid
  | grown hlength hb hplaced hgrown =>
    exact (hgrown.allotted hb clear hlength hplaced).distinct tidy₀ distinct valid
  | shrunk hlength hb hshrunk =>
    have hbefore := (hb.allotted clear (Nat.le_refl _)).distinct tidy₀ distinct valid
    exact hbefore.of_subset hb.tidy hshrunk.tidy hshrunk.subset
  | touched _ _ hcores ih => exact ih.of_cores hcores

/-! ## Entries that overtake -/

/-- The calls of the work on the first entries are calls of the update. -/
theorem steps_reconciles_subset (tracks : Tracks z₀ domain records t) (valid : new.fault? = none)
    (hdomain : new.domain = domain) {k : Nat} (hk : k ≤ records.length)
    (hk' : k ≤ new.entries.length) :
    (runActions new (Plan.weightingChange t.config new == some .enabled) ⟨t.id.ids, [], none⟩
      (Plan.actionsFrom t.config new 0 ((t.config.entries.zip t.id.ids).take k)
        (new.entries.take k))).steps remote z₀ ⊆ (update t new).steps remote z₀ := by
  refine List.Subset.trans ?_ (steps_actions_subset valid (tracks.domain_eq.trans hdomain.symm)
    tracks.size z₀)
  rw [← tracks.length_zip] at hk
  rw [Plan.actionsFrom_split hk hk', runActions_append]
  exact Dialogue.steps_bind_left

/-- An entry that overtakes a record gets its value while the record still has it. -/
theorem Stage.not_distinct {i j : Nat} (h : Stage z₀ records t.config new (i + 1) z)
    (tracks : Tracks z₀ domain records t) (uniform : Uniform records t.config)
    (hhost : new.host = t.config.host) (htype : new.type = t.config.type) (hij : i < j)
    {a : Entry} {s : StoredRecord} (ha : new.entries[i]? = some a) (hs : records[j]? = some s)
    (hvalue : a.value = s.value) : ¬ z.Distinct := by
  intro hdistinct
  have hj := (List.getElem?_eq_some_iff.mp hs).1
  have hr := List.getElem?_eq_getElem (Nat.lt_trans hij hj)
  obtain ⟨r', hr', hcore⟩ := h.exists_done (Nat.lt_succ_self i) hr ha
  have hs' := h.todo j s hij hs
  have hrtriple : r'.triple = (new.host, new.type, a.value) := by
    obtain ⟨hrhost, hrtype, -⟩ := uniform _ (List.mem_of_getElem? hr)
    have hsame : r'.triple = (StoredRecord.reconciled t.config new a _).triple :=
      congrArg (·.triple) hcore
    rw [hsame]
    exact reconciled_triple (hrhost.trans hhost.symm) (hrtype.trans htype.symm) a
  have hstriple : s.triple = (new.host, new.type, a.value) := by
    obtain ⟨hshost, hstype, -⟩ := uniform s (List.mem_of_getElem? hs)
    rw [StoredRecord.triple, hshost, hstype, hhost, htype, hvalue]
  have heq := h.tidy.distinct_iff.mp hdistinct r' (mem_of_record? hr') s
    (mem_of_record? hs') (hrtriple.trans hstriple.symm)
  have hid : (records[i]).id = s.id := by rw [← id_of_record? hr', heq]
  have := tracks.index_eq hr hs hid
  omega

/-- Where nothing fails and the records are of the zone, an update goes through with every entry
that both sets have, so none may overtake a record. -/
theorem Overtakes.exists_step (h : Overtakes t.config new) (tracks : Tracks z₀ domain records t)
    (valid : new.fault? = none) (hdomain : new.domain = domain) (calm : z₀.failures = [])
    (uniform : Uniform records t.config) (hhost : new.host = t.config.host)
    (htype : new.type = t.config.type) (hall : ∀ r ∈ records, r.domain = domain)
    (distinct : z₀.Distinct) :
    ∃ x ∈ (update t new).steps remote z₀, ¬ x.2.Distinct := by
  obtain ⟨i, j, a, b, hij, ha, hb, hvalue⟩ := h
  obtain ⟨first, -, -, -, -, -, -, hentries⟩ := tracks.shared
  rw [hentries, List.getElem?_map, Option.map_eq_some_iff] at hb
  obtain ⟨s, hs, rfl⟩ := hb
  have hj := (List.getElem?_eq_some_iff.mp hs).1
  have hi := (List.getElem?_eq_some_iff.mp ha).1
  have hk : i + 1 ≤ records.length := by omega
  have hclosed : ∀ (k : Nat) (r : StoredRecord) (e : Entry), records[k]? = some r →
      new.entries[k]? = some e → (Plan.weightingChange t.config new == some .enabled) = false →
      new.weighting.isOn = true →
      z₀.isOpen (fullName (r.reconciled t.config new e).host r.domain) = false →
      LifecycleError → Zone → False := by
    intro k r e hr _ hnow hon hopen
    have hmem := List.mem_of_getElem? hr
    obtain ⟨hrhost, hrtype, hrline⟩ := uniform r hmem
    have hrdomain := (hall r hmem).trans hdomain.symm
    have hcarries := reconciled_carries (e := e) hrhost hrtype hrline hrdomain (.inl hhost)
    rw [hcarries.host, hrdomain, ← setName,
      tracks.opened hdomain (.inl hhost) (beq_eq_false_iff_ne.mp hnow) hon] at hopen
    cases hopen
  have hkeeps : (runActions new (Plan.weightingChange t.config new == some .enabled)
      ⟨t.id.ids, [], none⟩ (Plan.actionsFrom t.config new 0
        ((t.config.entries.zip t.id.ids).take (i + 1)) (new.entries.take (i + 1)))).Ensures remote
      (fun _ _ => True) (Kept z₀ records t.config new
        (Plan.weightingChange t.config new == some .enabled) (i + 1)) (fun _ _ => False) z₀ :=
    ensures_reconciles_kept tracks (.inl calm) (fun _ _ _ _ _ _ => trivial) hclosed hk hi
  obtain ⟨p, zk, hkept, hend⟩ := hkeeps.exists_state
  -- the zone after the entry that overtakes is not the first one, so some step has led to it
  have hnot := hkept.toStage.not_distinct tracks uniform hhost htype hij ha hs hvalue
  rcases hend with rfl | ⟨x, hx, rfl⟩
  · exact absurd distinct hnot
  · exact ⟨x, steps_reconciles_subset tracks valid hdomain hk hi hx, hnot⟩

end

/-- Reading records of a group and updating them within it keeps all records of the zone apart at
every step if no entry overtakes a record, and only then. -/
theorem update_distinct_iff {z z' : Zone} (h : z.Reachable) (distinct : z.Distinct)
    {ids : List String} (hnodup : ids.Nodup)
    (hshared : ∀ r ∈ z.fetched ids, ∀ r' ∈ z.fetched ids,
      r.host = r'.host ∧ r.type = r'.type ∧ r.line = r'.line)
    {domain : String} {prior : TrackedSet}
    (hread : (read? ⟨ids⟩ domain).run remote z = (.ok (some prior), z'))
    {desired : RecordSet} (valid : desired.fault? = none)
    (hhost : desired.host = prior.config.host) (htype : desired.type = prior.config.type)
    (hfree : ∀ r ∈ z.records, r.id ∉ ids → ∀ e ∈ desired.entries,
      r.triple ≠ (desired.host, desired.type, e.value)) :
    (¬ Overtakes prior.config desired →
      ∀ x ∈ (update prior desired).steps remote z', x.2.Distinct) ∧
    (z.failures = [] → desired.domain = domain → (∀ r ∈ z.fetched ids, r.domain = domain) →
      (∀ x ∈ (update prior desired).steps remote z', x.2.Distinct) →
      ¬ Overtakes prior.config desired) := by
  obtain ⟨rfl, tracks⟩ := h.tidy.tracks_of_read? hnodup hread
  have uniform := tracks.uniform hshared
  have admissible := RecordSet.fault?_eq_none_iff.mp valid
  refine ⟨?_, ?_⟩
  · intro hbehind
    by_cases hdomain : desired.domain = domain
    · have clear : Clear z' (z'.fetched ids) desired := by
        refine ⟨?_, ?_, ?_⟩
        · intro r hr
          obtain ⟨hrhost, hrtype, -⟩ := uniform r hr
          exact ⟨tracks.mem r hr, hrhost.trans hhost.symm, hrtype.trans htype.symm⟩
        · intro r hr hid
          refine hfree r hr ?_
          intro hmem
          exact hid (List.mem_map_of_mem
            (List.mem_filterMap.mpr ⟨r.id, hmem, h.tidy.record?_of_mem hr⟩))
        · intro i j e r hij he hr hvalue
          obtain ⟨first, -, -, -, -, -, -, hentries⟩ := tracks.shared
          refine hbehind ⟨i, j, e, z'.entryRead domain first r, hij, he, ?_, hvalue⟩
          rw [hentries, List.getElem?_map, hr, Option.map_some]
      intro x hx
      exact (tracks.steps_pass valid hdomain x hx).distinct h.tidy distinct clear admissible
    · have hother : prior.config.domain ≠ desired.domain := by
        rw [tracks.domain_eq]
        exact fun heq => hdomain heq.symm
      obtain ⟨e, he⟩ := update_refused (.inr (.inl hother))
      rw [he]
      exact fun x hx => nomatch hx
  · intro calm hdomain hall hsteps hovertakes
    obtain ⟨x, hx, hnot⟩ := hovertakes.exists_step tracks valid hdomain calm uniform hhost htype
      hall distinct
    exact hnot (hsteps x hx)

/-- Values that move down the list are kept apart, and values that move up are not. -/
theorem pair_distinct :
    (∀ x ∈ (update pairRead (plain "www" ["192.0.2.3", "192.0.2.1"])).steps remote pair,
      x.2.Distinct) ∧
    ¬ ∀ x ∈ (update pairRead (plain "www" ["192.0.2.2"])).steps remote pair, x.2.Distinct := by
  refine ⟨?_, ?_⟩
  · have hvalid : (plain "www" ["192.0.2.3", "192.0.2.1"]).fault? = none := by decide
    refine (update_distinct_iff pair_reachable (by decide) (by decide) (by decide) read?_pair
      hvalid rfl rfl (by decide)).1 ?_
    rintro ⟨i, j, a, b, hij, ha, hb, hvalue⟩
    have hnone : ∀ a ∈ (plain "www" ["192.0.2.3", "192.0.2.1"]).entries,
        ∀ b ∈ pairRead.config.entries.drop 1, a.value ≠ b.value := by decide
    refine hnone a (List.mem_of_getElem? ha) b (List.mem_of_getElem? (i := j - 1) ?_) hvalue
    rw [List.getElem?_drop, Nat.add_sub_cancel' (Nat.lt_of_le_of_lt (Nat.zero_le i) hij)]
    exact hb
  · intro hsteps
    have hvalid : (plain "www" ["192.0.2.2"]).fault? = none := by decide
    exact (update_distinct_iff pair_reachable (by decide) (by decide) (by decide) read?_pair
      hvalid rfl rfl (by decide)).2 rfl rfl (by decide) hsteps
      ⟨0, 1, _, _, by decide, rfl, rfl, rfl⟩

/-- With its first value dropped, the group has two records of the second value on the way. -/
theorem update_not_always_distinct :
    ¬ ∀ (z : Zone) (ids : List String) (domain : String) (prior : TrackedSet) (z' : Zone)
      (desired : RecordSet), z.Reachable → z.Distinct → ids.Nodup →
      (∀ r ∈ z.fetched ids, ∀ r' ∈ z.fetched ids,
        r.host = r'.host ∧ r.type = r'.type ∧ r.line = r'.line) →
      (read? ⟨ids⟩ domain).run remote z = (.ok (some prior), z') → desired.fault? = none →
      desired.host = prior.config.host → desired.type = prior.config.type →
      (∀ r ∈ z.records, r.id ∉ ids → ∀ e ∈ desired.entries,
        r.triple ≠ (desired.host, desired.type, e.value)) →
      ∀ x ∈ (update prior desired).steps remote z', x.2.Distinct := by
  intro h
  have hsteps := h pair ["1000", "1001"] _ pairRead _ (plain "www" ["192.0.2.2"]) pair_reachable
    (by decide) (by decide) (by decide) read?_pair (by decide) rfl rfl (by decide)
  have hsame : ((update pairRead (plain "www" ["192.0.2.2"])).steps remote pair).any
      (fun x => !decide x.2.Distinct) = true := by
    decide +kernel
  simp only [List.any_eq_true, Bool.not_eq_true', decide_eq_false_iff_not] at hsame
  obtain ⟨x, hx, hnot⟩ := hsame
  exact hnot (hsteps x hx)

end Zone

end WeightedDns
