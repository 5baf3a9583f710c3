import WeightedDns.Proofs.Create.Outcome
import WeightedDns.Proofs.Zone.Later

/-!
# Updating a set that has just been created

A create switches weighting on where it is configured, but never off. So an update to the same
configuration has a switch to move where weighting was open for the host and is not configured, and
else it writes nothing, as far as reading finds the weights (`create_update_idle_iff`).
-/

namespace WeightedDns

open Lifecycle

namespace Zone

/-- Weights are read back as they are configured. -/
def WeightsRead (t : TrackedSet) (s : RecordSet) : Prop :=
  ∀ (i : Nat) (b e : Entry), t.config.entries[i]? = some b → s.entries[i]? = some e →
    s.weighting = .enabled → e.weight ≠ 0 → b.weight = e.weight

variable {z₀ z : Zone} {s : RecordSet} {t : TrackedSet}

theorem fault?_of_run_create {preflight : Bool}
    (hrun : (create preflight s).run remote z₀ = (.ok t, z)) : s.fault? = none := by
  cases hfault : s.fault? with
  | none => rfl
  | some fault =>
    unfold create accept at hrun
    rw [hfault] at hrun
    cases hrun

/-- As far as a walk reaches, weights are read back. -/
theorem Standing.weightsRead (h : Standing z s t) (hreach : z.records.length ≤ walkReach) :
    WeightsRead t s := by
  intro i b e hb he hon hweight
  obtain ⟨b', hb', -, -, -, -, hread⟩ := h.entry he
  obtain rfl : b = b' := Option.some.inj (hb.symm.trans hb')
  exact hread hreach (by rw [hon]; rfl) hweight

namespace Founded

/-- Reading finds the set that the create has returned. -/
theorem read? (h : Founded z₀ s t z) (calm : z.failures = []) (valid : s.Admissible) :
    (read? t.id s.domain).run remote z = (.ok (some t), z) := by
  obtain ⟨found, hread⟩ := h.tidy.exists_read? calm (valid.ne_nil h.size)
    h.toEquipped.isSome_of_mem s.domain
  obtain ⟨-, -, first, rest, hfetched, hfound⟩ := h.tidy.of_read? hread
  obtain ⟨first', hfirst, ht⟩ := h.tracks.read
  rw [hfetched] at hfirst ht
  obtain rfl : first = first' := Option.some.inj hfirst
  have hsame : found = t := hfound.trans ht.symm
  rw [hsame] at hread
  exact hread

/-- What an update still has to do is to set weights that have not been read, or to switch off
weighting that was open before. -/
theorem remaining_eq_nil_iff (h : Founded z₀ s t z) (valid : s.Admissible) :
    remaining t s = [] ↔
      (s.weighting = .enabled ∨ z₀.isOpen (setName s) = false) ∧ WeightsRead t s := by
  have hstanding := h.standing
  have hswitch : Plan.weightingChange t.config s = none ↔
      s.weighting = .enabled ∨ z₀.isOpen (setName s) = false := by
    rw [hstanding.weightingChange_eq valid]
    cases hweighting : s.weighting with
    | enabled =>
      rw [h.opened (by rw [hweighting]; rfl)]
      exact ⟨fun _ => .inl rfl, fun _ => rfl⟩
    | disabled =>
      rw [h.isOpen_eq (by rw [hweighting]; rfl)]
      cases z₀.isOpen (setName s) <;> simp [Switch.isOn]
  have hweights : (∀ (i : Nat) (b e : Entry) (id : String),
      (t.config.entries.zip t.id.ids)[i]? = some (b, id) → s.entries[i]? = some e →
      Plan.weightChange t.config s b e = none) ↔ WeightsRead t s := by
    constructor
    · intro hnone i b e hb he hon hweight
      have hlt := (List.getElem?_eq_some_iff.mp he).1
      rw [← h.size] at hlt
      have hzip : (t.config.entries.zip t.id.ids)[i]? = some (b, t.id.ids[i]) :=
        List.getElem?_zip_eq_some.mpr ⟨hb, List.getElem?_eq_getElem hlt⟩
      have hchange := hnone i b e _ hzip he
      refine Decidable.byContradiction fun hother => ?_
      have hplanned : (s.weighting.isOn && e.weight != 0 && e.weight != b.weight) = true := by
        simp [hon, Switch.isOn, hweight, Ne.symm hother]
      rw [hstanding.weightChange_eq valid, if_pos hplanned] at hchange
      cases hchange
    · intro hread i b e id hb he
      rw [hstanding.weightChange_eq valid, if_neg]
      intro hplanned
      simp only [Bool.and_eq_true, bne_iff_ne] at hplanned
      obtain ⟨⟨hon, hweight⟩, hother⟩ := hplanned
      have hon : s.weighting = .enabled := by
        cases hweighting : s.weighting with
        | enabled => rfl
        | disabled =>
          rw [hweighting] at hon
          cases hon
      exact hother (hread i b e (List.getElem?_zip_eq_some.mp hb).1 he hon hweight).symm
  rw [WeightedDns.remaining_eq_nil_iff, hweights, hswitch, and_comm]

/-- An update to the same configuration only reads exactly if no call remains. -/
theorem update_reads_iff (h : Founded z₀ s t z) (calm : z.failures = [])
    (valid : s.fault? = none) :
    (∀ x ∈ (update t s).steps remote z, x.1.writes = false) ↔ remaining t s = [] := by
  have hensures : (update t s).Ensures remote
      (fun c _ => c.writes = false ∨ remaining t s ≠ [])
      (fun _ z' => z'.journal = z.journal ++ remaining t s) (fun _ _ => False) z :=
    h.standing.ensures_update calm valid h.opened (fun _ _ hc => hc) fun _ _ hjournal _ => hjournal
  constructor
  · intro hreads
    have hsame := run_of_reads hreads
    obtain ⟨t', z', hrun, hjournal⟩ := hensures.exists_run
    rw [hrun] at hsame
    rw [show z' = z from hsame] at hjournal
    simpa using hjournal
  · intro hnil x hx
    rcases hensures.steps x hx with hreads | hremaining
    · exact hreads
    · exact absurd hnil hremaining

end Founded

/-- After a create, reading finds the set that it returned. While nothing fails, updating that to
the same configuration writes nothing exactly if weighting is configured or was not open for the
host before, and weights are read back; and these are in any zone that its listing reaches. -/
theorem create_update_idle_iff (h : z₀.Reachable) (calm : z₀.failures = []) {preflight : Bool}
    (hrun : (create preflight s).run remote z₀ = (.ok t, z)) :
    (read? t.id s.domain).run remote z = (.ok (some t), z) ∧
    ((∀ x ∈ (update t s).steps remote z, x.1.writes = false) ↔
      (s.weighting = .enabled ∨ z₀.isOpen (setName s) = false) ∧ WeightsRead t s) ∧
    (z₀.records.length ≤ 49950 → WeightsRead t s) := by
  have hfounded := founded_of_run h.tidy hrun
  have valid := fault?_of_run_create hrun
  have admissible := RecordSet.fault?_eq_none_iff.mp valid
  have calm' : z.failures = [] := hfounded.failures.trans calm
  refine ⟨hfounded.read? calm' admissible, ?_, ?_⟩
  · rw [hfounded.update_reads_iff calm' valid, hfounded.remaining_eq_nil_iff admissible]
  · intro hcount
    refine hfounded.standing.weightsRead ?_
    -- a create adds at most one record for an entry
    have hgrown := hfounded.length
    have hbound := admissible.entries_bounded
    have hfits : 49950 + RecordSet.entryLimit ≤ walkReach := by decide
    omega

/-- A zone without records where weighting has been left on for a host. -/
def leftOpen : Zone :=
  (empty.answer (.setWeighting ⟨domain, "www", some .a, some RecordSet.defaultLine, true⟩)).2

theorem leftOpen_reachable : leftOpen.Reachable := .answer _ .empty

/-- What a create of one entry returns there: weighting is read as it was left. -/
def createdOpen : TrackedSet :=
  ⟨⟨["1000"]⟩, { plain "www" ["192.0.2.1"] with weighting := .enabled }⟩

theorem create_leftOpen :
    (create true (plain "www" ["192.0.2.1"])).run remote leftOpen =
      (.ok createdOpen, ((create true (plain "www" ["192.0.2.1"])).run remote leftOpen).2) := by
  rfl

theorem leftOpen_not_idle :
    ¬ ∀ x ∈ (update createdOpen (plain "www" ["192.0.2.1"])).steps remote
      ((create true (plain "www" ["192.0.2.1"])).run remote leftOpen).2, x.1.writes = false := by
  intro hreads
  obtain ⟨-, hiff, -⟩ := create_update_idle_iff leftOpen_reachable rfl create_leftOpen
  have hswitch := (hiff.mp hreads).1
  revert hswitch
  decide

/-- The update after a create switches weighting off that was left on. -/
theorem create_update_not_always_idle :
    ¬ ∀ (z₀ z : Zone) (preflight : Bool) (s : RecordSet) (t : TrackedSet), z₀.Reachable →
      z₀.failures = [] → s.fault? = none → s.domain = domain →
      (create preflight s).run remote z₀ = (.ok t, z) →
      ∃ prior, (read? t.id s.domain).run remote z = (.ok (some prior), z) ∧
        ∀ x ∈ (update prior s).steps remote z, x.1.writes = false := by
  intro h
  obtain ⟨prior, hread, hreads⟩ := h leftOpen _ true _ _ leftOpen_reachable rfl (by decide) rfl
    create_leftOpen
  have hfound : (read? createdOpen.id "example.com").run remote
      ((create true (plain "www" ["192.0.2.1"])).run remote leftOpen).2 =
        (.ok (some createdOpen),
          ((create true (plain "www" ["192.0.2.1"])).run remote leftOpen).2) := by rfl
  obtain rfl : prior = createdOpen := by simpa using hread.symm.trans hfound
  have hwrites : ((update createdOpen (plain "www" ["192.0.2.1"])).steps remote
      ((create true (plain "www" ["192.0.2.1"])).run remote leftOpen).2).any
        (fun x => x.1.writes) = true := by decide +kernel
  obtain ⟨x, hx, hw⟩ := List.any_eq_true.mp hwrites
  rw [hreads x hx] at hw
  cases hw

end Zone

end WeightedDns
