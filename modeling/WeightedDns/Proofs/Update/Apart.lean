import Mathlib.Data.List.Induction
import WeightedDns.Proofs.Update.Ending
import WeightedDns.Proofs.Update.Outcome
import WeightedDns.Proofs.Zone.Deletion

/-!
# Records that a set tracks more than once

A list of IDs may name a record more than once, and reading takes it as it is. An entry that is
kept needs a record of its own: where its record is named again, no update leaves the set as it is
desired (`apart_of_planned_nil`). Where only records to be deleted are named more than once, the
later deletions find nothing, and the update is that of a set that names every record once
(`exists_tracks_of_apart`).
-/

namespace WeightedDns

open Lifecycle

/-- Each of the first `n` IDs stands in the list only once. -/
def Apart (ids : List String) (n : Nat) : Prop :=
  (ids.take n).Nodup ∧ ∀ id ∈ ids.drop n, id ∉ ids.take n

instance (ids : List String) (n : Nat) : Decidable (Apart ids n) :=
  inferInstanceAs (Decidable (_ ∧ _))

/-! ## An update that drops entries -/

/-- Only the first `n` IDs. -/
def Lifecycle.Progress.cut (p : Progress) (n : Nat) : Progress := { p with ids := p.ids.take n }

section

variable {desired old : RecordSet} {deferred : Bool}

theorem weigh_cut (id : String) (w : UInt32) (p : Progress) (n : Nat) :
    weigh deferred id w (p.cut n) = weigh deferred id w p >>= fun q => pure (q.cut n) := by
  unfold weigh
  split
  · rfl
  · rw [Dialogue.bind_assoc]
    rfl

/-- Work on an entry does not look at the IDs of others. -/
theorem runReconcile_cut {e : Entry} {i : Nat} {id : String} {core : Bool} {weight : Option UInt32}
    {remark : Option String} {status : Option Switch} (p : Progress) (n : Nat) :
    runReconcile desired deferred e i id core weight remark status (p.cut n) =
      runReconcile desired deferred e i id core weight remark status p >>= fun q =>
        pure (q.cut n) := by
  unfold runReconcile
  rw [Dialogue.bind_assoc]
  refine congrArg _ (funext fun replaced => ?_)
  have hset :
      (if replaced.isSome then { p.cut n with ids := (p.cut n).ids.set i (replaced.getD id) }
        else p.cut n) =
      (if replaced.isSome then { p with ids := p.ids.set i (replaced.getD id) }
        else p).cut n := by
    split
    · simp [Progress.cut, List.take_set]
    · rfl
  dsimp only
  rw [hset]
  cases (if replaced.isSome then startingWeight desired e else weight) with
  | none => simp only [Dialogue.bind_assoc, Dialogue.pure_eq, Dialogue.done_bind]
  | some w =>
    dsimp only
    rw [weigh_cut]
    simp only [Dialogue.bind_assoc, Dialogue.pure_eq, Dialogue.done_bind]

/-- Work on entries that are kept does not look at the IDs of others. -/
theorem runActions_cut {i : Nat} {before : List (Entry × String)} {after : List Entry}
    (hlength : before.length = after.length) (p : Progress) (n : Nat) :
    runActions desired deferred (p.cut n) (Plan.actionsFrom old desired i before after) =
      runActions desired deferred p (Plan.actionsFrom old desired i before after) >>= fun q =>
        pure (q.cut n) := by
  induction before generalizing i after p with
  | nil =>
    rw [List.length_eq_zero_iff.mp hlength.symm]
    rfl
  | cons x before ih =>
    obtain ⟨b, id⟩ := x
    cases after with
    | nil => cases hlength
    | cons e after =>
      have hrest := fun p => ih (i := i + 1) (Nat.succ.inj hlength) p
      rw [Plan.actionsFrom]
      unfold Plan.reconcile
      dsimp only
      split
      · rw [List.cons_append, List.nil_append, runActions, runActions, runAction, runAction]
        cases desired.entries[i]? with
        | none => exact hrest p
        | some e =>
          dsimp only
          rw [runReconcile_cut, Dialogue.bind_assoc, Dialogue.bind_assoc]
          exact congrArg _ (funext fun q => hrest q)
      · exact hrest p

theorem settle_cut (weighting : Option Switch) (p : Progress) :
    settle desired weighting (p.cut desired.entries.length) = settle desired weighting p := by
  simp only [settle, Progress.cut, List.take_take, Nat.min_self]

/-- The actions for entries that are only tracked delete their records. -/
theorem runActions_deletes (i : Nat) (left : List (Entry × String)) (p : Progress) :
    runActions desired deferred p (Plan.actionsFrom old desired i left []) =
      deleteAll (left.map (·.2)) >>= fun _ => pure p := by
  induction left generalizing i with
  | nil => rfl
  | cons x left ih =>
    obtain ⟨b, id⟩ := x
    rw [Plan.actionsFrom, runActions, runAction, List.map_cons, deleteAll, Dialogue.bind_assoc,
      Dialogue.bind_assoc]
    exact congrArg _ (funext fun _ => ih (i + 1))

/-- An update that drops entries works on the entries that are kept, deletes the records of the
others and settles. -/
theorem update_of_drops {prior : TrackedSet} {n : Nat} (hn : n = desired.entries.length)
    (hfault : desired.fault? = none) (hdomain : prior.config.domain = desired.domain)
    (hsize : prior.id.ids.length = prior.config.entries.length) (hlt : n < prior.id.ids.length) :
    update prior desired =
      runActions desired (Plan.weightingChange prior.config desired == some .enabled)
        ⟨prior.id.ids.take n, [], none⟩ (Plan.actionsFrom prior.config desired 0
          ((prior.config.entries.zip prior.id.ids).take n) desired.entries) >>= fun p =>
        deleteAll (prior.id.ids.drop n) >>= fun _ =>
          settle desired (Plan.weightingChange prior.config desired) p := by
  have hzip : (prior.config.entries.zip prior.id.ids).length = prior.id.ids.length := by
    rw [List.length_zip, hsize, Nat.min_self]
  have hkept : ((prior.config.entries.zip prior.id.ids).take n).length =
      desired.entries.length := by
    rw [List.length_take]
    omega
  have hgone : ((prior.config.entries.zip prior.id.ids).drop n).map (·.2) =
      prior.id.ids.drop n := by
    rw [List.map_drop, List.map_snd_zip (Nat.le_of_eq hsize)]
  rw [update_eq hfault hdomain hsize rfl, if_neg]
  · have hcut : (⟨prior.id.ids.take n, [], none⟩ : Progress) =
        Progress.cut ⟨prior.id.ids, [], none⟩ n := rfl
    rw [hcut, runActions_cut hkept, Dialogue.bind_assoc,
      Plan.actionsFrom_split (k := n) (by omega) (by omega), runActions_append,
      Dialogue.bind_assoc, List.take_of_length_le (Nat.le_of_eq hn.symm),
      List.drop_of_length_le (Nat.le_of_eq hn.symm)]
    refine congrArg _ (funext fun p => ?_)
    rw [runActions_deletes, hgone, Dialogue.bind_assoc, hn]
    simp only [Dialogue.pure_eq, Dialogue.done_bind]
    rw [settle_cut]
  · -- the sets have different numbers of entries
    intro hempty
    simp only [Plan.isEmpty, Bool.and_eq_true, List.isEmpty_iff] at hempty
    have := Plan.length_eq_of_actionsFrom_nil hempty.1
    omega

/-- Of the tracked set a plan reads what its records share and the entries it is given. -/
theorem Plan.actionsFrom_entries (old : RecordSet) (entries : List Entry) (i : Nat)
    (before : List (Entry × String)) (after : List Entry) :
    actionsFrom { old with entries } desired i before after =
      actionsFrom old desired i before after := by
  induction before generalizing i after with
  | nil => rfl
  | cons x before ih =>
    obtain ⟨b, id⟩ := x
    cases after with
    | nil => rw [actionsFrom, actionsFrom, ih]
    | cons e after =>
      rw [actionsFrom, actionsFrom, ih]
      rfl

end

namespace Zone

/-! ## Deleting a record again -/

section

variable {z z' : Zone}

theorem deleteAll_append (ids ids' : List String) :
    deleteAll (ids ++ ids') = deleteAll ids >>= fun _ => deleteAll ids' := by
  induction ids with
  | nil => rfl
  | cons id ids ih => rw [List.cons_append, deleteAll, deleteAll, ih, Dialogue.bind_assoc]

/-- Deleting records is deleting each of them once. -/
theorem exists_nodup_deleteAll (gone : List StoredRecord) :
    ∃ once : List StoredRecord, (once.map (·.id)).Nodup ∧ once ⊆ gone ∧
      (∀ r ∈ gone, r.id ∈ once.map (·.id)) ∧ ∀ z : Zone, z.failures = [] →
        (deleteAll (gone.map (·.id))).run remote z =
          (deleteAll (once.map (·.id))).run remote z := by
  induction gone using List.reverseRecOn with
  | nil => exact ⟨[], List.nodup_nil, List.nil_subset _, List.forall_mem_nil _, fun _ _ => rfl⟩
  | append_singleton gone r ih =>
    obtain ⟨once, hnodup, hsub, hall, hsame⟩ := ih
    by_cases hr : r.id ∈ once.map (·.id)
    · refine ⟨once, hnodup, List.subset_append_of_subset_left _ hsub, ?_, ?_⟩
      · intro r' hr'
        rcases List.mem_append.mp hr' with hr' | hr'
        · exact hall r' hr'
        · exact List.mem_singleton.mp hr' ▸ hr
      · intro z calm
        -- the record has been deleted before, so that deleting it again does nothing
        have hagain : (z.purged (once.map (·.id))).purged [r.id] = z.purged (once.map (·.id)) := by
          refine purged_of_gone ?_
          intro id hid
          rw [List.mem_singleton.mp hid]
          exact record?_purged z hr
        have calm' : (z.purged (once.map (·.id))).failures = [] := calm
        rw [List.map_append, deleteAll_append, Dialogue.run_bind, hsame z calm, run_deleteAll calm]
        exact (run_deleteAll calm' [r.id]).trans (by rw [hagain])
    · refine ⟨once ++ [r], ?_, ?_, ?_, ?_⟩
      · rw [List.map_append]
        refine List.nodup_append.mpr ⟨hnodup, List.nodup_singleton _, ?_⟩
        intro id hid id' hid' heq
        rw [heq, List.mem_singleton.mp hid'] at hid
        exact hr hid
      · exact List.append_subset.mpr ⟨List.subset_append_of_subset_left _ hsub,
          List.subset_append_right _ _⟩
      · intro r' hr'
        rw [List.map_append, List.mem_append]
        rcases List.mem_append.mp hr' with hr' | hr'
        · exact .inl (hall r' hr')
        · exact .inr (List.mem_map_of_mem hr')
      · intro z calm
        rw [List.map_append, List.map_append, deleteAll_append, deleteAll_append,
          Dialogue.run_bind, Dialogue.run_bind, hsame z calm]

/-- It does not matter which records an update deletes more than once. -/
theorem run_update_reading (tidy : z.Tidy) (calm : z.failures = []) {domain : String}
    {new : RecordSet} (valid : new.fault? = none) (hdomain : new.domain = domain)
    (first : StoredRecord) {kept gone once : List StoredRecord}
    (hkept : kept.length = new.entries.length) (hgone : gone ≠ []) (honce : once ≠ [])
    (hsame : ∀ z : Zone, z.failures = [] → (deleteAll (gone.map (·.id))).run remote z =
      (deleteAll (once.map (·.id))).run remote z) :
    (update (z.reading domain first (kept ++ once)) new).run remote z =
      (update (z.reading domain first (kept ++ gone)) new).run remote z := by
  have hupdate : ∀ dropped : List StoredRecord, dropped ≠ [] →
      update (z.reading domain first (kept ++ dropped)) new =
        runActions new
          (Plan.weightingChange (z.reading domain first kept).config new == some .enabled)
          ⟨kept.map (·.id), [], none⟩ (Plan.actionsFrom (z.reading domain first kept).config new 0
            (kept.map fun r => (z.entryRead domain first r, r.id)) new.entries) >>= fun p =>
          deleteAll (dropped.map (·.id)) >>= fun _ =>
            settle new (Plan.weightingChange (z.reading domain first kept).config new) p := by
    intro dropped hne
    have hids : (z.reading domain first (kept ++ dropped)).id.ids =
        kept.map (·.id) ++ dropped.map (·.id) := List.map_append
    have hlength : (kept.map (·.id)).length = new.entries.length := by rw [List.length_map, hkept]
    have hlt : new.entries.length < (z.reading domain first (kept ++ dropped)).id.ids.length := by
      have := List.length_pos_iff.mpr hne
      rw [hids, List.length_append, List.length_map, List.length_map, hkept]
      omega
    have hbefore : ((z.reading domain first (kept ++ dropped)).config.entries.zip
        (z.reading domain first (kept ++ dropped)).id.ids).take new.entries.length =
          kept.map fun r => (z.entryRead domain first r, r.id) := by
      rw [zip_reading, List.map_append, List.take_left' (by rw [List.length_map, hkept])]
    -- both sets share the same, so that the same is planned for the entries that are kept
    have hactions : ∀ before after,
        Plan.actionsFrom (z.reading domain first (kept ++ dropped)).config new 0 before after =
          Plan.actionsFrom (z.reading domain first kept).config new 0 before after :=
      Plan.actionsFrom_entries (z.reading domain first kept).config _ 0
    rw [update_of_drops rfl valid hdomain.symm (length_reading z domain first _) hlt, hbefore,
      hactions, hids, List.take_left' hlength, List.drop_left' hlength]
    rfl
  rw [hupdate once honce, hupdate gone hgone, Dialogue.run_bind, Dialogue.run_bind]
  have hlater := ensures_later (runActions new
    (Plan.weightingChange (z.reading domain first kept).config new == some .enabled)
    ⟨kept.map (·.id), [], none⟩ (Plan.actionsFrom (z.reading domain first kept).config new 0
      (kept.map fun r => (z.entryRead domain first r, r.id)) new.entries)) tidy
  -- nothing fails either once the entries that are kept are done
  split
  · rename_i p zb hrun
    have calm' : zb.failures = [] := (hlater.post_of_run hrun).failures.trans calm
    rw [Dialogue.run_bind, Dialogue.run_bind, hsame zb calm']
  · rfl

/-- Of records whose first ones are different, those and some different ones of the others are
tracked. -/
theorem tracks_of_apart (tidy : z.Tidy) (allows : z.failures.lookup .describeRecord = none)
    (domain : String) {first : StoredRecord} {rest once : List StoredRecord} {n : Nat}
    (hmem : ∀ r ∈ first :: rest, r ∈ z.records) (hn : 0 < n)
    (apart : Apart ((first :: rest).map (·.id)) n) (hnodup : (once.map (·.id)).Nodup)
    (hsub : once ⊆ (first :: rest).drop n) :
    Tracks z domain ((first :: rest).take n ++ once)
      (z.reading domain first ((first :: rest).take n ++ once)) := by
  refine ⟨tidy, allows, ?_, ?_, first, ?_, rfl⟩
  · intro r hr
    rcases List.mem_append.mp hr with hr | hr
    · exact hmem r (List.mem_of_mem_take hr)
    · exact hmem r (List.mem_of_mem_drop (hsub hr))
  · rw [List.map_append, List.map_take]
    refine List.nodup_append.mpr ⟨apart.1, hnodup, ?_⟩
    intro id hid id' hid' heq
    obtain ⟨r, hr, rfl⟩ := List.mem_map.mp hid'
    have hdrop : r.id ∈ ((first :: rest).map (·.id)).drop n := by
      rw [← List.map_drop]
      exact List.mem_map_of_mem (hsub hr)
    exact apart.2 r.id hdrop (heq ▸ hid)
  · obtain ⟨n, rfl⟩ := Nat.exists_eq_succ_of_ne_zero (Nat.ne_of_gt hn)
    rfl

/-- A set whose entries that are kept have records of their own is updated as one that tracks every
record once, and is read in the same way up to the entries that are dropped. -/
theorem exists_tracks_of_apart {domain : String} {ids : List String} {prior : TrackedSet}
    {new : RecordSet} {zr : Zone} (tidy : z.Tidy) (calm : z.failures = [])
    (hread : (read? ⟨ids⟩ domain).run remote z = (.ok (some prior), zr))
    (apart : Apart prior.id.ids new.entries.length) (valid : new.fault? = none)
    (hdomain : new.domain = domain) :
    ∃ records once, Tracks z domain records once ∧ (∀ r ∈ records, r ∈ z.fetched ids) ∧
      once.config = { prior.config with entries := once.config.entries } ∧
      once.config.entries.head? = prior.config.entries.head? ∧
      (update once new).run remote z = (update prior new).run remote z := by
  obtain ⟨-, allows, first, rest, hfetched, rfl⟩ := tidy.of_read? hread
  have hstored : ∀ r ∈ first :: rest, r ∈ z.fetched ids := fun r hr => hfetched ▸ hr
  have hmem : ∀ r ∈ first :: rest, r ∈ z.records := fun r hr => (mem_fetched (hstored r hr)).1
  have hpos : 0 < new.entries.length :=
    List.length_pos_iff.mpr (RecordSet.fault?_eq_none_iff.mp valid).entries_nonempty
  rcases Nat.lt_or_ge new.entries.length (first :: rest).length with hlt | hge
  · obtain ⟨once, hnodup, hsub, hall, hsame⟩ :=
      exists_nodup_deleteAll ((first :: rest).drop new.entries.length)
    have hgone : (first :: rest).drop new.entries.length ≠ [] := by
      intro hnil
      have := congrArg List.length hnil
      rw [List.length_drop, List.length_nil] at this
      omega
    have honce : once ≠ [] := by
      rintro rfl
      obtain ⟨r, hr⟩ := List.exists_mem_of_ne_nil _ hgone
      exact nomatch hall r hr
    refine ⟨(first :: rest).take new.entries.length ++ once, _,
      tracks_of_apart tidy allows domain hmem hpos apart hnodup hsub, ?_, rfl, ?_, ?_⟩
    · intro r hr
      rcases List.mem_append.mp hr with hr | hr
      · exact hstored r (List.mem_of_mem_take hr)
      · exact hstored r (List.mem_of_mem_drop (hsub hr))
    · obtain ⟨n, hn⟩ := Nat.exists_eq_succ_of_ne_zero (Nat.ne_of_gt hpos)
      rw [hn]
      rfl
    · conv_rhs => rw [← List.take_append_drop new.entries.length (first :: rest)]
      refine run_update_reading tidy calm valid hdomain first ?_ hgone honce hsame
      rw [List.length_take]
      omega
  · have hall : (first :: rest).take new.entries.length = first :: rest :=
      List.take_of_length_le hge
    have hnone : (([] : List StoredRecord).map (·.id)).Nodup := List.nodup_nil
    have tracks :=
      tracks_of_apart tidy allows domain hmem hpos apart hnone (List.nil_subset _)
    rw [hall, List.append_nil] at tracks
    exact ⟨first :: rest, _, tracks, hstored, rfl, rfl, rfl⟩

/-! ## An entry without a record of its own -/

/-- Where the records are there, work on the entries leaves them their IDs. -/
theorem Stale.ids_eq {z₀ : Zone} {prior : TrackedSet} {new : RecordSet} {deferred : Bool} {n : Nat}
    {p : Progress} (h : Stale z₀ prior new deferred n p z)
    (size : prior.id.ids.length = prior.config.entries.length) (hn : n ≤ prior.id.ids.length)
    (hn' : n ≤ new.entries.length) (hstored : ∀ id ∈ prior.id.ids, (z₀.record? id).isSome) :
    p.ids = prior.id.ids := by
  refine List.ext_getElem? fun i => ?_
  rcases Nat.lt_or_ge i n with hi | hi
  · obtain ⟨b, id, e, hb⟩ :=
      exists_inBoth size (Nat.lt_of_lt_of_le hi hn) (Nat.lt_of_lt_of_le hi hn')
    obtain ⟨id', hid', hmended⟩ := h.done i b id e hi hb
    rw [hid', hb.id_eq]
    cases hmended with
    | kept _ => rfl
    | replaced _ gone _ _ =>
      have := hstored id hb.mem_ids
      rw [gone] at this
      cases this
  · exact h.todo i hi

/-- A set that nothing is planned for has a record of its own for every entry. -/
theorem Reread.of_planned_nil {ids : List String} {t : TrackedSet} {new : RecordSet}
    (h : Reread z new ids t) (valid : new.Admissible)
    (hnil : Plan.actionsFrom t.config new 0 (t.config.entries.zip t.id.ids) new.entries = []) :
    (∀ id ∈ ids, (z.record? id).isSome) ∧ ids.Nodup := by
  have hlength := Plan.length_eq_of_actionsFrom_nil hnil
  have hsize : t.id.ids.length = new.entries.length := by
    rw [← hlength, List.length_zip, h.entries, Nat.min_self]
  have hstored := h.length_eq_iff.mp hsize
  obtain ⟨first, rest, hfetched, rfl⟩ := h.read
  rw [zip_reading, ← hfetched] at hnil hlength
  -- the records have the values of the entries, and these are all different
  have hvalues : (z.fetched ids).map (·.value) = new.entries.map (·.value) := by
    rw [List.length_map] at hlength
    refine List.ext_getElem (by rw [List.length_map, List.length_map, hlength]) fun i hi hi' => ?_
    rw [List.length_map] at hi hi'
    rw [List.getElem_map, List.getElem_map]
    have hentry := (Plan.actionsFrom_eq_nil_iff (by rw [List.length_map, hlength])).mp hnil i _ _ _
      (by rw [List.getElem?_map, List.getElem?_eq_getElem hi]; rfl) (List.getElem?_eq_getElem hi')
    have hcore := (Plan.reconcile_eq_nil_iff.mp hentry).1
    exact (Plan.coreChanges_eq_false_iff.mp hcore).2.1
  refine ⟨hstored, ?_⟩
  rw [← map_id_fetched hstored]
  refine List.Nodup.map_on ?_ (List.Nodup.of_map (·.value) ?_)
  · intro r hr r' hr' heq
    obtain ⟨id, -, hr⟩ := List.mem_filterMap.mp hr
    obtain ⟨id', -, hr'⟩ := List.mem_filterMap.mp hr'
    rw [id_of_record? hr, id_of_record? hr'] at heq
    rw [heq, hr'] at hr
    exact (Option.some.inj hr).symm
  · rw [hvalues]
    exact valid.values_distinct

/-- Where nothing is left to plan after an update, every entry has had a record of its own. -/
theorem apart_of_planned_nil {z₀ : Zone} {prior t : TrackedSet} {new : RecordSet} (tidy : z₀.Tidy)
    (calm : z₀.failures = []) (hstored : ∀ id ∈ prior.id.ids, (z₀.record? id).isSome)
    (hrun : (update prior new).run remote z₀ = (.ok t, z))
    (hnil : Plan.actionsFrom t.config new 0 (t.config.entries.zip t.id.ids) new.entries = []) :
    Apart prior.id.ids new.entries.length := by
  obtain ⟨valid, size, deferred, p, zd, hconcluded, hcores, hread⟩ := exists_concluded tidy hrun
  obtain ⟨hthere, hnodup⟩ := hread.of_planned_nil valid hnil
  cases hconcluded (tidy.issued hstored) with
  | grown hlength hb h _ hall =>
    have hids := hb.ids_eq size (Nat.le_refl _) hlength hstored
    rw [List.take_of_length_le (Nat.le_of_eq hall), h.ids, hids] at hnodup
    rw [Apart, List.take_of_length_le hlength, List.drop_of_length_le hlength]
    exact ⟨hnodup.of_append_left, List.forall_mem_nil _⟩
  | @pruned zb hlength hb h =>
    have hids := hb.ids_eq size hlength (Nat.le_refl _) hstored
    rw [hids] at hnodup hthere
    refine ⟨hnodup, ?_⟩
    -- the record of an entry has not been deleted
    intro id hid hkept
    have hsome := hthere id hkept
    have hallows : zb.failures.lookup .deleteRecord = none :=
      lookup_failures_eq_none (hb.failures.trans calm) _
    rw [isSome_of_cores hcores, h.left] at hsome
    exact hsome.2 ⟨hid, hallows⟩

end

end Zone

end WeightedDns
