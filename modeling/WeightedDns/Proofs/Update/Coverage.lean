import WeightedDns.Proofs.Create.Created
import WeightedDns.Proofs.Update.Ending

/-!
# Entries that lose their records

A set that a write returns has one entry for each of its IDs, but an update of a set that has gone
stale may return fewer of them than there are entries. That a record has gone is only noticed where
something is planned for its entry, and reading at the end leaves out whatever is gone
(`write_covers_iff`).
-/

namespace WeightedDns

open Lifecycle

namespace Zone

/-- An entry that both sets have comes to have no record: it had gone and nothing is planned that
would notice, or it is deleted because an entry that is dropped has the same ID. -/
def LosesAt (z : Zone) (prior : TrackedSet) (desired : RecordSet) (i : Nat) : Prop :=
  ∃ b id e, InBoth prior desired i b id e ∧
    ((z.record? id = none ∧ Plan.reconcile prior.config desired i id b e = []) ∨
      ((z.record? id).isSome ∧ id ∈ prior.id.ids.drop desired.entries.length ∧
        z.failures.lookup .deleteRecord = none))

section

variable {z₀ z zb : Zone} {prior : TrackedSet} {new : RecordSet} {deferred : Bool} {p : Progress}
  {i : Nat} {b e : Entry} {id id' : String}

theorem losesAt_iff (hb : InBoth prior new i b id e) :
    LosesAt z prior new i ↔
      (z.record? id = none ∧ Plan.reconcile prior.config new i id b e = []) ∨
        ((z.record? id).isSome ∧ id ∈ prior.id.ids.drop new.entries.length ∧
          z.failures.lookup .deleteRecord = none) := by
  constructor
  · rintro ⟨b', id', e', hb', h⟩
    obtain ⟨rfl, rfl, rfl⟩ := hb.unique hb'
    exact h
  · exact fun h => ⟨b, id, e, hb, h⟩

theorem LosesAt.lt_length (h : LosesAt z prior new i) : i < new.entries.length := by
  obtain ⟨_, _, _, hb, -⟩ := h
  exact (List.getElem?_eq_some_iff.mp hb.desired).1

instance (z : Zone) (prior : TrackedSet) (new : RecordSet) (i : Nat) :
    Decidable (LosesAt z prior new i) :=
  match hb : (prior.config.entries.zip prior.id.ids)[i]?, he : new.entries[i]? with
  | some (_, _), some _ => decidable_of_iff _ (losesAt_iff ⟨hb, he⟩).symm
  | none, _ => isFalse fun ⟨_, _, _, h, _⟩ => nomatch hb.symm.trans h.tracked
  | some _, none => isFalse fun ⟨_, _, _, h, _⟩ => nomatch he.symm.trans h.desired

/-- The ID that an entry has when its work is done is that of a record unless the entry loses it
at once, as long as no record is deleted. -/
theorem Mended.isSome_iff (h : Mended z₀ zb (Plan.reconcile prior.config new i id b e ≠ []) id id')
    (hlater : Later z₀ zb) (hstays : ∀ id, (z₀.record? id).isSome → (zb.record? id).isSome)
    (issued : z₀.Issued prior.id.ids) (hb : InBoth prior new i b id e) :
    (zb.record? id').isSome ↔
      ¬ (z₀.record? id = none ∧ Plan.reconcile prior.config new i id b e = []) := by
  cases h with
  | kept hfound =>
    constructor
    · rintro hsome ⟨hnone, -⟩
      have hthere := hlater.isSome_of_issued issued hb.mem_ids hsome
      rw [hnone] at hthere
      cases hthere
    · intro hnot
      refine hstays id ?_
      cases hr : z₀.record? id with
      | some r => rfl
      | none =>
        have hsome := hfound fun hnil => hnot ⟨hr, hnil⟩
        rw [hr] at hsome
        exact hsome
  | replaced hplanned _ _ hthere =>
    exact ⟨fun _ hnot => hplanned hnot.2, fun _ => hthere⟩

/-- Deleting the records of entries that are dropped takes that of an entry away exactly if the
two have one ID from before. -/
theorem Mended.dropped_iff {planned : Prop} (h : Mended z₀ zb planned id id')
    (hlater : Later z₀ zb) (issued : z₀.Issued prior.id.ids) (hthere : (zb.record? id').isSome)
    (hfound : ¬ planned → (z₀.record? id).isSome) {n : Nat} :
    id' ∈ prior.id.ids.drop n ↔ (z₀.record? id).isSome ∧ id ∈ prior.id.ids.drop n := by
  cases h with
  | kept hplanned =>
    have hsome : (z₀.record? id).isSome := by
      by_cases hp : planned
      · exact hplanned hp
      · exact hfound hp
    exact (and_iff_right hsome).symm
  | replaced _ gone fresh _ =>
    -- a new record has an ID that had not been given out, so no entry is dropped with it
    constructor
    · intro hmem
      have hold := hlater.isSome_of_issued issued (List.mem_of_mem_drop hmem) hthere
      rw [fresh] at hold
      cases hold
    · rintro ⟨hsome, -⟩
      rw [gone] at hsome
      cases hsome

section

variable (size : prior.id.ids.length = prior.config.entries.length)
  (issued : z₀.Issued prior.id.ids)
include size issued

/-- Where no entry is dropped, an entry that both sets have keeps or gets a record unless it had
lost it, and those that only the desired set has all get records. -/
theorem Creating.isSome_iff {p₀ : Progress} {placed : List (Entry × String)}
    (h : Creating zb p₀ new deferred placed p z) (hlater : Later zb z)
    (hb : Stale z₀ prior new deferred prior.id.ids.length p₀ zb)
    (hlength : prior.id.ids.length ≤ new.entries.length)
    (hall : p.ids.length = new.entries.length) (hi : i < new.entries.length) :
    ∃ id', p.ids[i]? = some id' ∧ ((z.record? id').isSome ↔ ¬ LosesAt z₀ prior new i) := by
  rcases Nat.lt_or_ge i prior.id.ids.length with hlt | hge
  · obtain ⟨b, id, e, hboth⟩ := exists_inBoth size hlt hi
    obtain ⟨id', hid', hmended⟩ := hb.done i b id e hlt hboth
    refine ⟨id', ?_, ?_⟩
    · rw [h.ids, List.getElem?_append_left (by rw [hb.size]; exact hlt)]
      exact hid'
    · rw [(hmended.mono fun _ => h.stays).isSome_iff (hb.toLater.trans hlater)
        (fun id hsome => h.stays (hb.stays id hsome)) issued hboth, losesAt_iff hboth,
        List.drop_of_length_le hlength]
      simp
  · have hplaced : i - prior.id.ids.length < placed.length := by
      have hcount := h.length_ids
      rw [hb.size] at hcount
      omega
    obtain ⟨r, hr, -⟩ := h.made _ (List.getElem_mem hplaced)
    refine ⟨placed[i - prior.id.ids.length].2, ?_, ?_⟩
    · rw [h.ids, List.getElem?_append_right (by rw [hb.size]; exact hge), hb.size,
        List.getElem?_map, List.getElem?_eq_getElem hplaced, Option.map_some]
    · rw [hr]
      refine ⟨?_, fun _ => rfl⟩
      rintro - ⟨b, id, e, hboth, -⟩
      exact Nat.not_lt.mpr hge hboth.lt_length

/-- Where entries are dropped, an entry keeps or gets a record unless it had lost it or is deleted
with them. -/
theorem Pruned.isSome_iff (h : Pruned zb (prior.id.ids.drop new.entries.length) z)
    (hb : Stale z₀ prior new deferred new.entries.length p zb)
    (hlength : new.entries.length ≤ prior.id.ids.length) (hi : i < new.entries.length) :
    ∃ id', p.ids[i]? = some id' ∧ ((z.record? id').isSome ↔ ¬ LosesAt z₀ prior new i) := by
  obtain ⟨b, id, e, hboth⟩ := exists_inBoth size (Nat.lt_of_lt_of_le hi hlength) hi
  obtain ⟨id', hid', hmended⟩ := hb.done i b id e hi hboth
  have hiff := hmended.isSome_iff hb.toLater hb.stays issued hboth
  refine ⟨id', hid', ?_⟩
  rw [h.left, hiff, losesAt_iff hboth, hb.failures, not_or]
  refine and_congr_right fun hkept => not_congr ?_
  have hfound : ¬ Plan.reconcile prior.config new i id b e ≠ [] → (z₀.record? id).isSome := by
    intro hnil
    rw [Option.isSome_iff_ne_none]
    exact fun hnone => hkept ⟨hnone, not_not.mp hnil⟩
  rw [hmended.dropped_iff hb.toLater issued (hiff.mpr hkept) hfound, and_assoc]

/-- When the actions are done, an entry has a record unless it has lost it. -/
theorem Concluded.isSome_iff (h : Concluded z₀ prior new deferred p z)
    (hi : i < new.entries.length) :
    ∃ id', p.ids[i]? = some id' ∧ ((z.record? id').isSome ↔ ¬ LosesAt z₀ prior new i) := by
  cases h with
  | grown hlength hb h hlater hall => exact h.isSome_iff size issued hlater hb hlength hall hi
  | pruned hlength hb h => exact h.isSome_iff size issued hb hlength hi

end

end

/-- A create returns a record for every entry. An update returns one entry for each ID, and fewer
than the desired set has exactly if some entry has lost its record, as long as no tracked ID is one
that is still to be given out. -/
theorem write_covers_iff {z : Zone} (h : z.Reachable) :
    (∀ (preflight : Bool) (s : RecordSet) (t : TrackedSet) (z' : Zone),
      (create preflight s).run remote z = (.ok t, z') →
      t.id.ids.length = s.entries.length ∧ t.config.entries.length = s.entries.length) ∧
    ∀ (prior : TrackedSet) (desired : RecordSet) (t : TrackedSet) (z' : Zone),
      (update prior desired).run remote z = (.ok t, z') →
      t.config.entries.length = t.id.ids.length ∧
      t.id.ids.length ≤ desired.entries.length ∧
      (z.Issued prior.id.ids → (t.id.ids.length = desired.entries.length ↔
        ¬ ∃ i, LosesAt z prior desired i)) := by
  refine ⟨?_, ?_⟩
  · intro preflight s t z' hrun
    have hfounded := founded_of_run h.tidy hrun
    exact ⟨hfounded.size, hfounded.tracks.size.symm.trans hfounded.size⟩
  · intro prior desired t z' hrun
    obtain ⟨-, size, _, p, zd, hconcluded, hcores, hread⟩ := exists_concluded h.tidy hrun
    refine ⟨hread.entries, hread.length_le, ?_⟩
    intro issued
    rw [hread.length_eq_iff]
    constructor
    · rintro hall ⟨i, hloses⟩
      have hi := hloses.lt_length
      obtain ⟨id, hid, hiff⟩ := (hconcluded issued).isSome_iff size issued hi
      have hmem : id ∈ p.ids.take desired.entries.length := by
        refine List.mem_of_getElem? (i := i) ?_
        rw [List.getElem?_take_of_lt hi]
        exact hid
      rw [← isSome_of_cores hcores] at hiff
      exact hiff.mp (hall id hmem) hloses
    · intro hnone id hmem
      obtain ⟨i, hi⟩ := List.mem_iff_getElem?.mp hmem
      have hlt := (List.getElem?_eq_some_iff.mp hi).1
      rw [hread.count] at hlt
      rw [List.getElem?_take_of_lt hlt] at hi
      obtain ⟨id', hid', hiff⟩ := (hconcluded issued).isSome_iff size issued hlt
      obtain rfl := Option.some.inj (hi.symm.trans hid')
      rw [isSome_of_cores hcores]
      exact hiff.mpr fun hloses => hnone ⟨i, hloses⟩

/-- The two records of a host with the second one taken away. -/
def halved : Zone := pair.remove "1001"

theorem halved_reachable : halved.Reachable := .remove _ pair_reachable

theorem halved_issued : halved.Issued pairRead.id.ids :=
  (pair_reachable.tidy.issued (by decide)).mono (Nat.le_refl _)

/-- An entry that is to change gets a new record in place of the one that has gone, and one that
stays as it is gets none. -/
theorem halved_covered :
    (∃ t z', (update pairRead (plain "www" ["192.0.2.1", "192.0.2.3"])).run remote halved =
        (.ok t, z') ∧ t.id.ids.length = 2) ∧
      ∀ t z', (update pairRead pairRead.config).run remote halved = (.ok t, z') →
        t.id.ids.length ≠ 2 := by
  refine ⟨?_, ?_⟩
  · have hrun : (update pairRead (plain "www" ["192.0.2.1", "192.0.2.3"])).run remote halved =
        (.ok ⟨⟨["1000", "1002"]⟩, plain "www" ["192.0.2.1", "192.0.2.3"]⟩,
          ((update pairRead (plain "www" ["192.0.2.1", "192.0.2.3"])).run remote halved).2) := by
      rfl
    obtain ⟨-, -, hiff⟩ := (write_covers_iff halved_reachable).2 _ _ _ _ hrun
    refine ⟨_, _, hrun, (hiff halved_issued).mpr ?_⟩
    rintro ⟨i, hloses⟩
    have hnone : ∀ i < 2, ¬ LosesAt halved pairRead (plain "www" ["192.0.2.1", "192.0.2.3"]) i := by
      decide
    exact hnone i hloses.lt_length hloses
  · intro t z' hrun hall
    obtain ⟨-, -, hiff⟩ := (write_covers_iff halved_reachable).2 _ _ _ _ hrun
    exact (hiff halved_issued).mp hall ⟨1, by decide⟩

/-- An update to the configuration that is tracked does not notice that a record has gone. -/
theorem update_not_always_covers :
    ¬ ∀ (z : Zone) (prior : TrackedSet) (desired : RecordSet) (t : TrackedSet) (z' : Zone),
      z.Reachable → desired.fault? = none →
      (update prior desired).run remote z = (.ok t, z') →
      t.id.ids.length = desired.entries.length := by
  intro h
  have hrun : (update pairRead pairRead.config).run remote halved =
      (.ok ⟨⟨["1000"]⟩, plain "www" ["192.0.2.1"]⟩, halved) := by rfl
  have hall := h halved pairRead pairRead.config _ _ halved_reachable (by decide) hrun
  revert hall
  decide

end Zone

end WeightedDns
