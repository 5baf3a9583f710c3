import WeightedDns.Proofs.Update.Frame

/-!
# Updates and records of other zones

A set is read by the IDs of its records, and the zone that it is read for is not compared with the
zone of the records. An update of such a set leaves the records of other zones alone exactly if
none of them is tracked (`update_spares_other_zones_iff`).
-/

namespace WeightedDns

open Lifecycle

namespace Zone

variable {z : Zone} {domain : String} {first : StoredRecord} {rest : List StoredRecord}

/-- A configuration of one entry that no reading of a record satisfies. -/
def rival (domain : String) (first : StoredRecord) : RecordSet where
  domain
  host := "www"
  type := .a
  line := RecordSet.defaultLine
  priority := none
  weighting := .disabled
  entries := [⟨"192.0.2.1", if first.ttl = 600 then 601 else 600, 0, .enabled, none⟩]

theorem rival_fault? (hdomain : Text.isBlank domain = false) :
    (rival domain first).fault? = none := by
  have hhost : Text.isBlank "www" = false := by decide
  have hline : Text.isBlank RecordSet.defaultLine = false := by decide
  have hvalue : Text.isBlank "192.0.2.1" = false := by decide
  have httl : (if first.ttl = 600 then 601 else 600 : UInt32) ≠ 0 := by split <;> decide
  simp [rival, RecordSet.fault?, hdomain, hhost, hline, RecordSet.entryLimit,
    RecordSet.entriesFault?, RecordSet.entryFault?, hvalue, httl]

theorem rival_ttl {a : Entry} (ha : (rival domain first).entries[0]? = some a) :
    first.ttl ≠ a.ttl := by
  obtain rfl := Option.some.inj ha
  dsimp only
  split
  · rename_i h
    rw [h]
    decide
  · assumption

/-- Nothing has been made to fail, and the first `n` of some records are gone or changed. -/
structure Displaced (records : List StoredRecord) (n : Nat) (z : Zone) : Prop where
  tidy : z.Tidy
  failures : z.failures = []
  changed : ∀ i r, i < n → records[i]? = some r → z.record? r.id ≠ some r

theorem Displaced.deleteOne {records : List StoredRecord} {n : Nat} {r : StoredRecord}
    (hr : records[n]? = some r) (h : Displaced records n z) :
    (deleteOne r.id).Ensures remote (fun _ _ => True) (fun _ => Displaced records (n + 1))
      (fun _ _ => False) z := by
  refine ensures_deleteOne (.inl h.failures) (fun _ => trivial) ?_ ?_
  · intro hgone
    refine ⟨h.tidy, h.failures, ?_⟩
    intro i s hi hs
    rcases Nat.lt_succ_iff_lt_or_eq.mp hi with hi | rfl
    · exact h.changed i s hi hs
    · obtain rfl : r = s := Option.some.inj (hr.symm.trans hs)
      rcases hgone with hnone | hfails
      · rw [hnone]
        simp
      · exact absurd (lookup_failures_eq_none h.failures _) hfails
  · intro _ _ _
    refine ⟨fun _ => trivial, (h.tidy.remove r.id).note _, h.failures, ?_⟩
    intro i s hi hs
    rw [note_record?, record?_remove]
    split
    · simp
    · rename_i hne
      rcases Nat.lt_succ_iff_lt_or_eq.mp hi with hi | rfl
      · exact h.changed i s hi hs
      · obtain rfl : r = s := Option.some.inj (hr.symm.trans hs)
        exact absurd rfl hne

/-- The first record is overwritten with the entry of the rival set. -/
theorem runReconcile_rival (tidy : z.Tidy) (calm : z.failures = [])
    (hfirst : first ∈ z.records) (rest : List StoredRecord) {a : Entry}
    (ha : (rival domain first).entries[0]? = some a) (deferred : Bool)
    (remark : Option String) (status : Option Switch) (p : Progress) :
    (runReconcile (rival domain first) deferred a 0 first.id true none remark status p).Ensures
      remote (fun _ _ => True) (fun _ => Displaced (first :: rest) 1) (fun _ _ => False) z := by
  have hr := tidy.record?_of_mem hfirst
  have httl := rival_ttl ha
  have hmismatch : coreMatches first (rival domain first) a = false := by
    simp [coreMatches, httl]
  rw [runReconcile_eq, Dialogue.ensures_bind]
  refine ensures_reconcileCore tidy (.inl calm) (fun _ => trivial) ?_ ?_ ?_
  · intro r hr' hmatches
    obtain rfl : first = r := Option.some.inj (hr.symm.trans hr')
    rw [hmismatch] at hmatches
    cases hmatches
  · intro _ _ _ c
    refine ⟨fun _ => trivial, ?_⟩
    dsimp only
    have hr' := record?_note_edit hr (f := .rewritten (rival domain first) a) (fun _ => rfl) c
    refine ensures_touch (tidy.rewritten _ a first.id c) (.inl calm) (fun _ _ _ => trivial) ?_ ?_ ?_
    · intro hnone
      rw [hr'] at hnone
      cases hnone
    · intro _ _ _ hweight
      cases hweight
    · intro z' ht hkept
      refine ⟨ht.tidy, ht.failures.trans calm, ?_⟩
      intro i s hi hs
      obtain rfl : i = 0 := by omega
      obtain rfl : first = s := Option.some.inj hs
      obtain ⟨r', hz', hto⟩ := hkept _ hr'
      rw [hz']
      intro heq
      have hcore : first.core = (first.rewritten (rival domain first) a).core := by
        rw [← hto.core, Option.some.inj heq]
      exact httl (congrArg StoredRecord.ttl hcore)
  · intro hgone
    rcases hgone with hnone | hfails
    · rw [hr] at hnone
      cases hnone
    · exact absurd (lookup_failures_eq_none calm _) hfails

/-- An update to the rival set changes or deletes every record that has been read. -/
theorem runActions_rival (tidy : z.Tidy) (calm : z.failures = [])
    (hmem : ∀ r ∈ first :: rest, r ∈ z.records) {prior : TrackedSet}
    (hprior : prior = z.reading domain first (first :: rest)) (deferred : Bool) :
    (runActions (rival domain first) deferred ⟨prior.id.ids, [], none⟩
      (Plan.actionsFrom prior.config (rival domain first) 0
        (prior.config.entries.zip prior.id.ids) (rival domain first).entries)).Ensures remote
      (fun _ _ => True) (fun _ => Displaced (first :: rest) (first :: rest).length)
      (fun _ _ => False) z := by
  have hbefore := z.zip_reading domain first (first :: rest)
  rw [← hprior] at hbefore
  have hone : (rival domain first).entries.length = 1 := rfl
  have hlength : (prior.config.entries.zip prior.id.ids).length = rest.length + 1 := by
    rw [hbefore, List.length_map, List.length_cons]
  -- up to the first action the zone is still as it was read
  refine ensures_actionsFrom
    (R := fun i _ z' => Displaced (first :: rest) i z' ∧ (i = 0 → z' = z)) ?_ ?_ ?_
    ⟨⟨tidy, calm, fun _ _ h => absurd h (Nat.not_lt_zero _)⟩, fun _ => rfl⟩
  · rintro i b id a p z' hb ha ⟨-, hstart⟩
    obtain rfl : i = 0 := by
      have := (List.getElem?_eq_some_iff.mp ha).1
      omega
    obtain rfl := hstart rfl
    rw [hbefore] at hb
    obtain ⟨rfl, rfl⟩ := Prod.mk.inj (Option.some.inj hb)
    have httl := rival_ttl ha
    have hcore : Plan.coreChanges prior.config (rival domain first)
        (z'.entryRead domain first first) a = true := by
      simp [Plan.coreChanges, httl]
    refine ensures_planned ha ?_ ?_
    · rw [hcore]
      refine (runReconcile_rival tidy calm (hmem first List.mem_cons_self) rest ha deferred
        _ _ p).weaken ?_
      intro _ z' h
      exact ⟨h, fun h => absurd h (Nat.succ_ne_zero _)⟩
    · intro hnone
      rw [hcore] at hnone
      cases hnone
  · -- the rival set has one entry, so nothing is created where one record was read
    rintro p z' hle ⟨h, -⟩
    have hrest : (prior.config.entries.zip prior.id.ids).length = 1 := by omega
    have hdrop : (rival domain first).entries.drop
        (prior.config.entries.zip prior.id.ids).length = [] := by
      rw [hrest]
      rfl
    rw [hdrop, Plan.createsFrom]
    rw [hlength] at h
    exact h
  · -- and all records but the first one are deleted
    rintro p z' - ⟨h, -⟩
    refine (ensures_deletes (A := fun i _ => Displaced (first :: rest) i) ?_ rfl h).weaken ?_
    · intro i b id p z'' hb h'
      rw [hbefore, List.getElem?_map, Option.map_eq_some_iff] at hb
      obtain ⟨r, hr, hpair⟩ := hb
      obtain ⟨-, rfl⟩ := Prod.mk.inj hpair
      rw [runAction, Dialogue.ensures_bind]
      exact (h'.deleteOne hr).weaken fun _ _ h => h
    · intro _ z'' h'
      rw [List.length_drop, hlength, hone] at h'
      rw [List.length_cons]
      have heq : 1 + (rest.length + 1 - 1) = rest.length + 1 := by omega
      rw [heq] at h'
      exact h'

/-- Whatever has been read is changed at some step of an update to the rival set. -/
theorem exists_step_displacing (tidy : z.Tidy) (calm : z.failures = [])
    (hdomain : Text.isBlank domain = false) (hmem : ∀ r ∈ first :: rest, r ∈ z.records)
    {prior : TrackedSet} (hprior : prior = z.reading domain first (first :: rest)) :
    ∃ x ∈ (update prior (rival domain first)).steps remote z,
      ∀ r ∈ first :: rest, x.2.record? r.id ≠ some r := by
  obtain ⟨p, z', hend, hstep⟩ := (runActions_rival tidy calm hmem hprior
    (Plan.weightingChange prior.config (rival domain first) == some .enabled)).exists_state
  have hchanged : ∀ r ∈ first :: rest, z'.record? r.id ≠ some r := by
    intro r hr
    obtain ⟨i, hi⟩ := List.mem_iff_getElem?.mp hr
    exact hend.changed i r (List.getElem?_eq_some_iff.mp hi).1 hi
  rcases hstep with rfl | ⟨x, hx, rfl⟩
  · have hsame := tidy.record?_of_mem (hmem first List.mem_cons_self)
    exact absurd hsame (hchanged first List.mem_cons_self)
  · refine ⟨x, ?_, hchanged⟩
    refine steps_actions_subset (rival_fault? hdomain) (by rw [hprior]; rfl) ?_ z hx
    rw [hprior]
    exact z.length_reading domain first (first :: rest)

/-- Updates of a set that has been read for a zone leave the records of other zones alone if none
of them is tracked; and while nothing fails, only then. -/
theorem update_spares_other_zones_iff (h : z.Reachable) {ids : List String}
    {prior : TrackedSet} {z' : Zone}
    (hread : (read? ⟨ids⟩ domain).run remote z = (.ok (some prior), z')) :
    ((∀ r ∈ z.records, r.id ∈ ids → Text.sameLetters r.domain domain) →
      ∀ desired : RecordSet, desired.domain = domain →
        ∀ x ∈ (update prior desired).steps remote z', ∀ r ∈ z.records,
          ¬ Text.sameLetters r.domain domain → x.2.record? r.id = some r) ∧
    (z.failures = [] → Text.isBlank domain = false →
      (∀ desired : RecordSet, desired.fault? = none → desired.domain = domain →
        ∀ x ∈ (update prior desired).steps remote z', ∀ r ∈ z.records,
          ¬ Text.sameLetters r.domain domain → x.2.record? r.id = some r) →
      ∀ r ∈ z.records, r.id ∈ ids → Text.sameLetters r.domain domain) := by
  have tidy := h.tidy
  obtain ⟨rfl, -, first, rest, hfetched, hprior⟩ := tidy.of_read? hread
  have hmem : ∀ r ∈ first :: rest, r ∈ z'.records ∧ r.id ∈ ids := by
    intro r hr
    exact mem_fetched (hfetched ▸ hr)
  have hids : prior.id.ids = (first :: rest).map (·.id) := by rw [hprior]; rfl
  refine ⟨?_, ?_⟩
  · intro htracked desired hdomain x hx r hr hother
    refine update_spares tidy prior desired hr ?_ ?_ x hx
    · rw [hids]
      intro hid
      obtain ⟨s, hs, heq⟩ := List.mem_map.mp hid
      exact hother (htracked r hr (by rw [← heq]; exact (hmem s hs).2))
    · rintro ⟨hsame, -⟩
      apply hother
      rw [hsame, hdomain]
      exact Text.sameLetters_refl _
  · -- the update to the rival set has a step that does not spare what it tracks
    intro calm hblank hspares r hr hid
    cases hsame : Text.sameLetters r.domain domain with
    | true => rfl
    | false =>
      obtain ⟨x, hx, hchanged⟩ := exists_step_displacing tidy calm hblank
        (fun r hr => (hmem r hr).1) hprior
      have hread : r ∈ first :: rest := by
        rw [← hfetched]
        exact List.mem_filterMap.mpr ⟨r.id, hid, tidy.record?_of_mem hr⟩
      have hkept := hspares _ (rival_fault? hblank) rfl x hx r hr (by rw [hsame]; simp)
      exact absurd hkept (hchanged r hread)

/-! ## A record of another zone -/

/-- A zone with a record of its own, 1000, and a record of another zone, 1001. -/
def mixed : Zone :=
  ((empty.seed "www" .a "192.0.2.1" 600).answer
    (.addRecord ⟨"example.net", "www", .a, "192.0.2.2", 600, RecordSet.defaultLine, none⟩)).2

theorem mixed_reachable : mixed.Reachable := .answer _ (.seed _ _ _ _ .empty)

/-- A configuration of one entry. -/
def single (value : String) (weight : UInt32) : RecordSet :=
  ⟨"example.com", "www", .a, RecordSet.defaultLine, none, .disabled,
    [⟨value, 600, weight, .enabled, none⟩]⟩

theorem mixed_spares_other_zone :
    (read? ⟨["1000"]⟩ "example.com").run remote mixed =
      (.ok (some ⟨⟨["1000"]⟩, single "192.0.2.1" 1⟩), mixed) ∧
    ∀ desired : RecordSet, desired.domain = "example.com" →
      ∀ x ∈ (update ⟨⟨["1000"]⟩, single "192.0.2.1" 1⟩ desired).steps remote mixed,
        ∀ r ∈ mixed.records, ¬ Text.sameLetters r.domain "example.com" →
          x.2.record? r.id = some r := by
  have hread : (read? ⟨["1000"]⟩ "example.com").run remote mixed =
      (.ok (some ⟨⟨["1000"]⟩, single "192.0.2.1" 1⟩), mixed) := by rfl
  refine ⟨hread, (update_spares_other_zones_iff mixed_reachable hread).1 ?_⟩
  decide +kernel

/-- Tracked as 1001 for `example.com`, the record of the other zone is overwritten. -/
theorem other_zone_not_always_spared :
    ¬ ∀ (z : Zone) (ids : List String) (domain : String) (prior : TrackedSet) (z' : Zone),
      z.Reachable → (read? ⟨ids⟩ domain).run remote z = (.ok (some prior), z') →
      ∀ desired : RecordSet, desired.fault? = none → desired.domain = domain →
        ∀ x ∈ (update prior desired).steps remote z', ∀ r ∈ z.records,
          ¬ Text.sameLetters r.domain domain → x.2.record? r.id = some r := by
  intro h
  have hread : (read? ⟨["1001"]⟩ "example.com").run remote mixed =
      (.ok (some ⟨⟨["1001"]⟩, single "192.0.2.2" 0⟩), mixed) := by rfl
  have hspares := h mixed _ _ _ _ mixed_reachable hread (single "192.0.2.9" 0) (by decide) rfl
  have hchanged : ((update ⟨⟨["1001"]⟩, single "192.0.2.2" 0⟩
      (single "192.0.2.9" 0)).steps remote mixed).any (fun x => mixed.records.any fun r =>
        !Text.sameLetters r.domain "example.com" && x.2.record? r.id != some r) = true := by
    decide +kernel
  simp only [List.any_eq_true, Bool.and_eq_true, Bool.not_eq_true', bne_iff_ne] at hchanged
  obtain ⟨x, hx, r, hr, hother, hne⟩ := hchanged
  exact hne (hspares x hx r hr (by rw [hother]; simp))

end Zone

end WeightedDns
