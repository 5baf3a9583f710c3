import WeightedDns.Proofs.Update.Stale

/-!
# How an update of a stale set ends

After the entries that both sets have, an update creates those that only the desired set has or
deletes the records of those that only the tracked set has (`Concluded`). What follows leaves all
records alone but for their weights, and the set that is returned is read from the records that
are there (`Reread`). `exists_concluded` says so of every update that has succeeded.
-/

namespace WeightedDns

open Lifecycle

namespace Zone

/-! ## Entries that only one of the sets has -/

/-- The records with the IDs `gone` have been deleted, if deleting is allowed. -/
structure Pruned (zb : Zone) (gone : List String) (z : Zone) : Prop where
  left : ∀ id, (z.record? id).isSome ↔ (zb.record? id).isSome ∧
    ¬ (id ∈ gone ∧ zb.failures.lookup .deleteRecord = none)
  failures : z.failures = zb.failures

/-- How the actions of an update of a set that may be stale have ended. -/
inductive Concluded (z₀ : Zone) (prior : TrackedSet) (new : RecordSet) (deferred : Bool)
    (p : Progress) (z : Zone) : Prop where
  | grown {p₀ : Progress} {zb : Zone} {placed : List (Entry × String)}
      (hlength : prior.id.ids.length ≤ new.entries.length)
      (hb : Stale z₀ prior new deferred prior.id.ids.length p₀ zb)
      (h : Creating zb p₀ new deferred placed p z) (hlater : Later zb z)
      (hall : p.ids.length = new.entries.length) : Concluded z₀ prior new deferred p z
  | pruned {zb : Zone} (hlength : new.entries.length ≤ prior.id.ids.length)
      (hb : Stale z₀ prior new deferred new.entries.length p zb)
      (h : Pruned zb (prior.id.ids.drop new.entries.length) z) : Concluded z₀ prior new deferred p z

section

variable {z₀ zb z : Zone} {prior : TrackedSet} {new : RecordSet} {deferred : Bool} {p : Progress}
  {gone : List String} {id : String}

theorem Pruned.nil (zb : Zone) : Pruned zb [] zb where
  left id := by simp
  failures := rfl

theorem Pruned.deleteOne (h : Pruned zb gone z) (id : String) :
    (deleteOne id).Ensures remote (fun _ _ => True) (fun _ => Pruned zb (gone ++ [id]))
      (fun _ _ => True) z := by
  refine ensures_deleteOne (.inr fun _ _ => trivial) (fun _ => trivial) ?_ ?_
  · intro hgone
    refine ⟨?_, h.failures⟩
    intro id'
    rw [h.failures] at hgone
    rw [h.left, List.mem_append, List.mem_singleton, or_and_right, not_or, ← and_assoc,
      iff_self_and, ← h.left]
    -- the record was not there, or it could not be deleted
    rintro hsome ⟨rfl, hallows⟩
    rcases hgone with hnone | hfails
    · rw [hnone] at hsome
      cases hsome
    · exact hfails hallows
  · intro _ _ hallows
    rw [h.failures] at hallows
    refine ⟨fun _ => trivial, ?_, h.failures⟩
    intro id'
    rw [note_record?, record?_remove, List.mem_append, List.mem_singleton, or_and_right, not_or,
      ← and_assoc, ← h.left]
    by_cases heq : id' = id <;> simp [heq, hallows]

theorem Stale.waits_all {n : Nat} (h : Stale z₀ prior new deferred n p z) :
    Waits new deferred p.ids p.pending := by
  intro q hq
  obtain ⟨hdeferred, i, e, -, hid, he, hw⟩ := h.waits q hq
  exact ⟨hdeferred, i, e, hid, he, hw⟩

/-- The records of entries that only the tracked set has are deleted. -/
theorem Stale.ensures_deletes (hb : Stale z₀ prior new deferred new.entries.length p zb)
    (size : prior.id.ids.length = prior.config.entries.length)
    (hlength : new.entries.length ≤ prior.id.ids.length) :
    (runActions new deferred p (Plan.actionsFrom prior.config new new.entries.length
      ((prior.config.entries.zip prior.id.ids).drop new.entries.length) [])).Ensures remote
      (fun _ _ => True) (Concluded z₀ prior new deferred) (fun _ _ => True) zb := by
  -- the IDs between the last entry and the index have been seen to
  refine (WeightedDns.ensures_deletes (A := fun i p' z => p' = p ∧ new.entries.length ≤ i ∧
    i ≤ prior.id.ids.length ∧ Pruned zb ((prior.id.ids.take i).drop new.entries.length) z)
    ?_ rfl ⟨rfl, Nat.le_refl _, hlength, ?_⟩).weaken ?_
  · rintro i b id _ z hbefore ⟨rfl, hi, -, h⟩
    have hid := (List.getElem?_zip_eq_some.mp hbefore).2
    have hlt := (List.getElem?_eq_some_iff.mp hid).1
    have hmore : (prior.id.ids.take (i + 1)).drop new.entries.length =
        (prior.id.ids.take i).drop new.entries.length ++ [id] := by
      rw [List.take_add_one, hid, List.drop_append_of_le_length]
      · rfl
      · rw [List.length_take]
        omega
    rw [runAction, Dialogue.ensures_bind]
    refine (h.deleteOne id).weaken ?_
    intro _ z' h'
    exact ⟨rfl, Nat.le_succ_of_le hi, hlt, hmore ▸ h'⟩
  · rw [List.drop_of_length_le (by rw [List.length_take]; exact Nat.min_le_left _ _)]
    exact .nil zb
  · rintro _ z ⟨rfl, -, -, h⟩
    have hend : new.entries.length +
        ((prior.config.entries.zip prior.id.ids).drop new.entries.length).length =
          prior.id.ids.length := by
      rw [List.length_drop, List.length_zip]
      omega
    rw [hend, List.take_length] at h
    exact .pruned hlength hb h

/-- All actions of an update of a set that may be stale. -/
theorem ensures_actions_stale (tidy : z₀.Tidy) (issued : z₀.Issued prior.id.ids)
    (allows : z₀.failures.lookup .describeRecord = none) (valid : new.Admissible)
    (size : prior.id.ids.length = prior.config.entries.length) :
    (runActions new deferred ⟨prior.id.ids, [], none⟩ (Plan.actionsFrom prior.config new 0
      (prior.config.entries.zip prior.id.ids) new.entries)).Ensures remote (fun _ _ => True)
      (Concluded z₀ prior new deferred) (fun _ _ => True) z₀ := by
  have hzip : (prior.config.entries.zip prior.id.ids).length = prior.id.ids.length := by
    rw [List.length_zip, size, Nat.min_self]
  refine ensures_actionsFrom (R := Stale z₀ prior new deferred) ?_ ?_ ?_ (.zero tidy)
  · intro i b id e p z hb he h
    exact h.step issued allows ⟨hb, he⟩
  · rw [hzip]
    intro p₀ zb hlength hb
    have hsize := hb.size
    rw [← hsize] at hlength ⊢
    have hcreates : (runActions new deferred p₀ (Plan.createsFrom p₀.ids.length
        (new.entries.drop p₀.ids.length))).Ensures remote (fun _ _ => True)
        (fun p z => p.ids.length = new.entries.length ∧
          ∃ placed, Creating zb p₀ new deferred placed p z) (fun _ _ => True) zb :=
      ensures_creating hb.tidy valid hb.known hb.waits_all hlength (.inr fun _ _ => trivial)
        (fun _ _ _ _ _ => trivial) (fun _ _ _ _ _ => trivial) fun _ _ _ => trivial
    refine (hcreates.and (ensures_later _ hb.tidy)).mono (fun _ _ _ => trivial) ?_
      fun _ _ _ => trivial
    rintro p z ⟨⟨hall, placed, h⟩, hlater⟩
    exact .grown (hsize ▸ hlength) hb h hlater hall
  · rw [hzip]
    intro p zb hlength hb
    exact hb.ensures_deletes size hlength

/-! ## The set that is returned -/

/-- The set has been read from the records that are there under the IDs of all entries. -/
structure Reread (z : Zone) (s : RecordSet) (ids : List String) (t : TrackedSet) : Prop where
  allows : z.failures.lookup .describeRecord = none
  count : ids.length = s.entries.length
  read : ∃ first rest, z.fetched ids = first :: rest ∧
    t = z.reading s.domain first (first :: rest)

theorem Reread.ids {ids : List String} {t : TrackedSet} (h : Reread z new ids t) :
    t.id.ids = (z.fetched ids).map (·.id) := by
  obtain ⟨first, rest, hfetched, rfl⟩ := h.read
  rw [hfetched]
  rfl

theorem Reread.entries {ids : List String} {t : TrackedSet} (h : Reread z new ids t) :
    t.config.entries.length = t.id.ids.length := by
  obtain ⟨first, rest, -, rfl⟩ := h.read
  exact (length_reading z new.domain first (first :: rest)).symm

theorem Reread.length_le {ids : List String} {t : TrackedSet} (h : Reread z new ids t) :
    t.id.ids.length ≤ new.entries.length := by
  rw [h.ids, List.length_map, ← h.count]
  exact List.length_filterMap_le _ _

theorem Reread.length_eq_iff {ids : List String} {t : TrackedSet} (h : Reread z new ids t) :
    t.id.ids.length = new.entries.length ↔ ∀ id ∈ ids, (z.record? id).isSome := by
  rw [h.ids, List.length_map, ← h.count, fetched, List.filterMap_length_eq_length]

theorem ensures_reread (tidy : z.Tidy) (s : RecordSet) (ids : List String) :
    (readBack ⟨ids⟩ s).Ensures remote (fun _ _ => True) (fun t z' => z' = z ∧ Reread z s ids t)
      (fun _ _ => True) z := by
  refine ensures_readBack tidy (.inr fun _ _ => trivial) (fun _ _ => trivial)
    (fun _ _ => trivial) (fun _ _ => trivial) ?_
  intro first rest hfetched hallows hcount
  exact ⟨rfl, hallows, hcount, first, rest, hfetched, rfl⟩

/-- Weights that have waited do not matter to the cores. -/
theorem ensures_weighPending_cores (tidy : z.Tidy) (pending : List (String × UInt32)) :
    (weighPending pending).Ensures remote (fun _ _ => True)
      (fun _ z' => z'.Tidy ∧ z'.cores = z.cores ∧ z'.failures = z.failures) (fun _ _ => True)
      z := by
  induction pending generalizing z with
  | nil => exact ⟨tidy, rfl, rfl⟩
  | cons q rest ih =>
    rw [weighPending, Dialogue.ensures_bind]
    refine ensures_setWeight_touched tidy (.inr fun _ _ => trivial) (fun _ _ _ => trivial)
      (fun _ _ => trivial) (fun _ _ _ _ => trivial) ?_
    intro _ z₁ _ ht _
    refine (ih ht.tidy).weaken ?_
    rintro _ z' ⟨tidy', hcores, hfailures⟩
    exact ⟨tidy', hcores.trans ht.cores, hfailures.trans ht.failures⟩

/-- What follows the actions of an update. -/
theorem ensures_settle_cores (tidy : z.Tidy) (weighting : Option Switch) (p : Progress) :
    (settle new weighting p).Ensures remote (fun _ _ => True)
      (fun t z' => z'.cores = z.cores ∧ z'.failures = z.failures ∧
        Reread z' new (p.ids.take new.entries.length) t) (fun _ _ => True) z := by
  have hrest : ∀ z₁ : Zone, z₁.Tidy → z₁.cores = z.cores → z₁.failures = z.failures →
      (Lifecycle.weighPending p.pending >>= fun _ => do
        let id ← resourceId (p.ids.take new.entries.length)
        Lifecycle.readBack id new).Ensures remote (fun _ _ => True)
          (fun t z' => z'.cores = z.cores ∧ z'.failures = z.failures ∧
            Reread z' new (p.ids.take new.entries.length) t) (fun _ _ => True) z₁ := by
    intro z₁ tidy₁ hcores₁ hfailures₁
    rw [Dialogue.ensures_bind]
    refine (ensures_weighPending_cores tidy₁ p.pending).weaken ?_
    rintro _ z₂ ⟨tidy₂, hcores₂, hfailures₂⟩
    unfold resourceId ResourceId.new?
    split
    · rename_i id hid
      split at hid
      · obtain rfl := Option.some.inj hid
        rw [Dialogue.pure_eq, Dialogue.done_bind]
        refine (ensures_reread tidy₂ new _).weaken ?_
        rintro t _ ⟨rfl, hread⟩
        exact ⟨hcores₂.trans hcores₁, hfailures₂.trans hfailures₁, hread⟩
      · cases hid
    · exact trivial
  unfold settle
  rw [Dialogue.ensures_bind]
  refine ensures_whenSome (fun _ => hrest z tidy rfl rfl) ?_
  intro position _
  refine ensures_setWeighting (.inr fun _ _ => trivial) (fun _ => trivial) ?_
  intro c _
  exact ⟨fun _ => trivial, hrest _ ⟨tidy.ids_nodup, tidy.ids_numbered⟩ rfl rfl⟩

/-- An update that has succeeded has done its actions, and the set that it returns has been read
from the records with the cores that these have left. -/
theorem exists_concluded {t : TrackedSet} (tidy : z₀.Tidy)
    (hrun : (update prior new).run remote z₀ = (.ok t, z)) :
    new.Admissible ∧ prior.id.ids.length = prior.config.entries.length ∧ ∃ deferred p zd,
      (z₀.Issued prior.id.ids → Concluded z₀ prior new deferred p zd) ∧ z.cores = zd.cores ∧
        Reread z new (p.ids.take new.entries.length) t := by
  have hensures : (update prior new).Ensures remote (fun _ _ => True)
      (fun t z => new.Admissible ∧ prior.id.ids.length = prior.config.entries.length ∧
        ∃ deferred p zd, (z₀.Issued prior.id.ids → Concluded z₀ prior new deferred p zd) ∧
          z.cores = zd.cores ∧ Reread z new (p.ids.take new.entries.length) t)
      (fun _ _ => True) z₀ := by
    -- only reading at the end shows that records could be fetched on the way
    refine ensures_update (fun p zd => new.Admissible ∧
      prior.id.ids.length = prior.config.entries.length ∧ Later z₀ zd ∧
      (z₀.failures.lookup .describeRecord = none → z₀.Issued prior.id.ids →
        Concluded z₀ prior new (Plan.weightingChange prior.config new == some .enabled) p zd))
      (fun _ _ => trivial) ?_ ?_ ?_
    · intro hfault _ size
      have valid := RecordSet.fault?_eq_none_iff.mp hfault
      have hlater := ensures_later (runActions new
        (Plan.weightingChange prior.config new == some .enabled) ⟨prior.id.ids, [], none⟩
        (Plan.actionsFrom prior.config new 0 (prior.config.entries.zip prior.id.ids)
          new.entries)) tidy
      by_cases h : z₀.failures.lookup .describeRecord = none ∧ z₀.Issued prior.id.ids
      · refine (hlater.and (ensures_actions_stale tidy h.2 h.1 valid size)).mono
          (fun _ _ _ => trivial) ?_ fun _ _ _ => trivial
        rintro p zd ⟨hlater, hconcluded⟩
        exact ⟨valid, size, hlater, fun _ _ => hconcluded⟩
      · refine hlater.mono (fun _ _ _ => trivial) ?_ fun _ _ _ => trivial
        intro p zd hlater
        exact ⟨valid, size, hlater, fun allows issued => absurd ⟨allows, issued⟩ h⟩
    · rintro p zd ⟨valid, size, hlater, hconcluded⟩
      refine (ensures_settle_cores hlater.tidy _ p).weaken ?_
      rintro t z ⟨hcores, hfailures, hread⟩
      have allows : z₀.failures.lookup .describeRecord = none := by
        rw [← hlater.failures, ← hfailures]
        exact hread.allows
      exact ⟨valid, size, _, p, zd, hconcluded allows, hcores, hread⟩
    · rintro - - ⟨valid, size, -, hconcluded⟩
      refine (ensures_reread tidy new prior.id.ids).weaken ?_
      rintro t _ ⟨rfl, hread⟩
      have hall : prior.id.ids.take new.entries.length = prior.id.ids :=
        List.take_of_length_le (Nat.le_of_eq hread.count)
      refine ⟨valid, size, _, _, _, hconcluded hread.allows, rfl, ?_⟩
      dsimp only
      rw [hall]
      exact hread
  exact hensures.post_of_run hrun

end

end Zone

end WeightedDns
