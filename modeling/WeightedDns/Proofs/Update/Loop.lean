import WeightedDns.Lifecycle.Write
import WeightedDns.Proofs.Dialogue.Course

/-!
# The shape of an update

A plan works on the entries that both sets have, and then either creates the entries that only
the new set has or deletes those that only the old one has. The rules here follow that shape:
`ensures_actionsFrom` for the actions of a plan, with one loop for each kind of action, and
`ensures_update` for a whole update, which never does more than its actions, its switch, the
weights that have waited and the reading at the end.
-/

namespace WeightedDns

open Lifecycle

namespace Plan

/-! ## Plans -/

theorem sharedDiffers_eq_false_iff {old new : RecordSet} : old.sharedDiffers new = false ↔
    old.host = new.host ∧ old.type = new.type ∧ old.line = new.line ∧
      old.priority = new.priority := by
  simp [RecordSet.sharedDiffers, and_assoc]

theorem movesGroup_eq_false_iff {old new : RecordSet} : movesGroup old new = false ↔
    Text.sameLetters old.host new.host = true ∧ old.type = new.type ∧ old.line = new.line := by
  simp [movesGroup, and_assoc]

theorem not_movesGroup_of_not_sharedDiffers {old new : RecordSet}
    (h : old.sharedDiffers new = false) : movesGroup old new = false := by
  obtain ⟨hhost, htype, hline, -⟩ := sharedDiffers_eq_false_iff.mp h
  exact movesGroup_eq_false_iff.mpr ⟨by simp [hhost], htype, hline⟩

theorem weightingChange_eq_none_iff {old new : RecordSet} : weightingChange old new = none ↔
    movesGroup old new = false ∧ old.weighting = new.weighting := by
  simp [weightingChange]

theorem coreChanges_eq_false_iff {old new : RecordSet} {b e : Entry} :
    coreChanges old new b e = false ↔
      old.sharedDiffers new = false ∧ b.value = e.value ∧ b.ttl = e.ttl := by
  simp [coreChanges, and_assoc]

theorem statusChange_eq_none_iff {b e : Entry} : statusChange b e = none ↔ e.status = b.status := by
  simp [statusChange]

theorem remarkChange_eq_none_iff {b e : Entry} :
    remarkChange b e = none ↔ e.remarkText = b.remarkText := by
  simp [remarkChange]

/-- In the group where a set stays, no weight is set exactly if it is left alone or as desired. -/
theorem weightChange_eq_none_iff {old new : RecordSet} {b e : Entry}
    (hstays : movesGroup old new = false) : weightChange old new b e = none ↔
      (new.weighting = .enabled → e.weight ≠ 0 → b.weight = e.weight) := by
  rw [weightChange, hstays]
  by_cases hsame : b.weight = e.weight
  · simp [hsame]
  · cases new.weighting <;> simp [Switch.isOn, hsame, Ne.symm hsame]

/-- Only weights of entries are planned, where weighting is to be on, and never zero. -/
theorem weightChange_eq_some {old new : RecordSet} {before after : Entry} {w : UInt32}
    (h : weightChange old new before after = some w) :
    w = after.weight ∧ new.weighting.isOn = true ∧ after.weight ≠ 0 := by
  unfold weightChange at h
  split at h
  · rename_i hplanned
    simp only [Bool.and_eq_true, bne_iff_ne] at hplanned
    exact ⟨(Option.some.inj h).symm, hplanned.1.1, hplanned.1.2⟩
  · cases h

/-- A weight that is not planned is the one before, of a set that stays where it is. -/
theorem weightChange_eq_none {old new : RecordSet} {before after : Entry}
    (h : weightChange old new before after = none) (hon : new.weighting.isOn = true)
    (hweight : after.weight ≠ 0) :
    movesGroup old new = false ∧ after.weight = before.weight := by
  unfold weightChange at h
  split at h
  · cases h
  · rename_i hplanned
    simpa [hon, hweight] using hplanned

/-- An entry that stays as it is needs no work. -/
theorem reconcile_self {old new : RecordSet} (h : old.sharedDiffers new = false) (i : Nat)
    (id : String) (e : Entry) : reconcile old new i id e e = [] := by
  have hgroup := not_movesGroup_of_not_sharedDiffers h
  simp [reconcile, coreChanges, weightChange, remarkChange, statusChange, h, hgroup]

theorem actionsFrom_self {old new : RecordSet} (h : old.sharedDiffers new = false) (i : Nat)
    (entries : List Entry) (ids : List String) (hlen : ids.length = entries.length) :
    actionsFrom old new i (entries.zip ids) entries = [] := by
  induction entries generalizing i ids with
  | nil => rw [List.zip_nil_left, actionsFrom, createsFrom]
  | cons e rest ih =>
    cases ids with
    | nil => simp at hlen
    | cons id ids =>
      rw [List.zip_cons_cons, actionsFrom, reconcile_self h, ih _ ids (by simpa using hlen)]
      rfl

/-- The actions up to an index that both sets have, and those from there on. -/
theorem actionsFrom_split {old new : RecordSet} {i k : Nat} {before : List (Entry × String)}
    {after : List Entry} (hk : k ≤ before.length) (hk' : k ≤ after.length) :
    actionsFrom old new i before after =
      actionsFrom old new i (before.take k) (after.take k) ++
        actionsFrom old new (i + k) (before.drop k) (after.drop k) := by
  -- by induction on the index: one entry of either set comes off the front at each step
  induction k generalizing i before after with
  | zero => simp [actionsFrom, createsFrom]
  | succ k ih =>
    cases before with
    | nil => simp at hk
    | cons b before =>
      cases after with
      | nil => simp at hk'
      | cons a after =>
        obtain ⟨b, id⟩ := b
        have hnext : i + (k + 1) = i + 1 + k := by omega
        simp only [List.take_succ_cons, List.drop_succ_cons, actionsFrom, List.append_assoc]
        rw [hnext, ← ih (by simpa using hk) (by simpa using hk')]

/-- Entries that only one of two sets has need work. -/
theorem length_eq_of_actionsFrom_nil {old new : RecordSet} {i : Nat}
    {before : List (Entry × String)} {after : List Entry}
    (h : actionsFrom old new i before after = []) : before.length = after.length := by
  induction before generalizing i after with
  | nil =>
    cases after with
    | nil => rfl
    | cons a after => nomatch h
  | cons b before ih =>
    cases after with
    | nil => nomatch h
    | cons a after =>
      rw [actionsFrom, List.append_eq_nil_iff] at h
      rw [List.length_cons, List.length_cons, ih h.2]

/-- Nothing is planned for an entry exactly if nothing of it differs. -/
theorem reconcile_eq_nil_iff {old new : RecordSet} {i : Nat} {id : String} {b e : Entry} :
    reconcile old new i id b e = [] ↔ coreChanges old new b e = false ∧
      weightChange old new b e = none ∧ remarkChange b e = none ∧ statusChange b e = none := by
  unfold reconcile
  dsimp only
  split
  · rename_i hsome
    constructor
    · intro h
      cases h
    · rintro ⟨hcore, hweight, hremark, hstatus⟩
      simp [hcore, hweight, hremark, hstatus] at hsome
  · rename_i hnone
    simpa [and_assoc] using hnone

/-- Nothing is planned for entries exactly if nothing is planned for any of them. -/
theorem actionsFrom_eq_nil_iff {old new : RecordSet} {i : Nat} {before : List (Entry × String)}
    {after : List Entry} (hlength : before.length = after.length) :
    actionsFrom old new i before after = [] ↔
      ∀ (j : Nat) (b : Entry) (id : String) (e : Entry), before[j]? = some (b, id) →
        after[j]? = some e → reconcile old new (i + j) id b e = [] := by
  induction before generalizing i after with
  | nil =>
    rw [List.length_eq_zero_iff.mp hlength.symm]
    simp [actionsFrom, createsFrom]
  | cons x before ih =>
    obtain ⟨b, id⟩ := x
    cases after with
    | nil => cases hlength
    | cons e after =>
      rw [actionsFrom, List.append_eq_nil_iff, ih (Nat.succ.inj hlength)]
      constructor
      · rintro ⟨hfirst, hrest⟩ j b' id' e' hb he
        cases j with
        | zero =>
          obtain ⟨rfl, rfl⟩ := Prod.mk.inj (Option.some.inj hb)
          obtain rfl : e = e' := Option.some.inj he
          exact hfirst
        | succ j =>
          rw [Nat.add_comm j 1, ← Nat.add_assoc]
          exact hrest j b' id' e' hb he
      · intro h
        refine ⟨h 0 b id e rfl rfl, ?_⟩
        intro j b' id' e' hb he
        rw [Nat.add_assoc, Nat.add_comm 1 j]
        exact h (j + 1) b' id' e' hb he

/-- The actions of a plan are those of its entries, also where nothing changes. -/
theorem between_eq {prior : TrackedSet} {desired : RecordSet}
    (hdomain : prior.config.domain = desired.domain)
    (hsize : prior.id.ids.length = prior.config.entries.length) :
    Plan.between prior desired =
      .ok ⟨actionsFrom prior.config desired 0 (prior.config.entries.zip prior.id.ids)
        desired.entries, weightingChange prior.config desired⟩ := by
  have hsize' : ¬ prior.id.size ≠ prior.config.entries.length := fun h => h hsize
  simp only [Plan.between]
  rw [if_neg (fun h => h hdomain), if_neg hsize']
  split
  · rename_i hsame
    simp only [Bool.and_eq_true, Bool.not_eq_true', beq_iff_eq] at hsame
    -- the plan skips its entries where all are equal, and then they have no actions anyway
    rw [← hsame.2, actionsFrom_self hsame.1 0 _ _ hsize]
  · rfl

theorem between_of_domain_ne {prior : TrackedSet} {desired : RecordSet}
    (hdomain : prior.config.domain ≠ desired.domain) :
    Plan.between prior desired =
      .error (.domainChange prior.config.domain desired.domain) := by
  simp only [Plan.between]
  rw [if_pos hdomain]

theorem between_of_size_ne {prior : TrackedSet} {desired : RecordSet}
    (hdomain : prior.config.domain = desired.domain)
    (hsize : prior.id.size ≠ prior.config.entries.length) :
    Plan.between prior desired =
      .error (.countMismatch prior.id.size prior.config.entries.length) := by
  simp only [Plan.between]
  rw [if_neg (fun h => h hdomain), if_pos hsize]

end Plan

/-- How planning ends: with an objection, with a tracked set that does not have one ID for each
entry, or with the plan. -/
theorem Lifecycle.plan_cases (prior : TrackedSet) (desired : RecordSet) :
    (¬ (desired.fault? = none ∧ prior.config.domain = desired.domain) ∧
      ∃ objection, Lifecycle.plan prior desired = .fail (.refused objection)) ∨
    ((desired.fault? = none ∧ prior.config.domain = desired.domain ∧
        prior.id.size ≠ prior.config.entries.length) ∧
      Lifecycle.plan prior desired =
        .fail (.countMismatch prior.id.size prior.config.entries.length)) ∨
    ((desired.fault? = none ∧ prior.config.domain = desired.domain ∧
        prior.id.size = prior.config.entries.length) ∧
      Lifecycle.plan prior desired = .done ⟨Plan.actionsFrom prior.config desired 0
        (prior.config.entries.zip prior.id.ids) desired.entries,
          Plan.weightingChange prior.config desired⟩) := by
  unfold Lifecycle.plan accept
  cases hfault : desired.fault? with
  | some fault => exact .inl ⟨(fun h => nomatch h.1), _, rfl⟩
  | none =>
    by_cases hdomain : prior.config.domain = desired.domain
    · by_cases hsize : prior.id.size = prior.config.entries.length
      · rw [Plan.between_eq hdomain hsize]
        exact .inr (.inr ⟨⟨rfl, hdomain, hsize⟩, rfl⟩)
      · rw [Plan.between_of_size_ne hdomain hsize]
        exact .inr (.inl ⟨⟨rfl, hdomain, hsize⟩, rfl⟩)
    · rw [Plan.between_of_domain_ne hdomain]
      exact .inl ⟨fun h => hdomain h.2, _, rfl⟩

/-! ## Loops over actions -/

/-- The first of what is left of a list from an index on, and the rest. -/
theorem of_drop_eq_cons {α : Type} {l rest : List α} {i : Nat} {a : α}
    (h : l.drop i = a :: rest) : l[i]? = some a ∧ l.drop (i + 1) = rest := by
  constructor
  · rw [← List.head?_drop, h]
    rfl
  · rw [← List.drop_drop, h]
    rfl

section

variable {σ : Type} {remote : Remote σ} {inv : Call → σ → Prop}
  {err : LifecycleError → σ → Prop} {old desired : RecordSet} {deferred : Bool}

theorem runActions_append (p : Progress) (as bs : List Action) :
    runActions desired deferred p (as ++ bs) =
      runActions desired deferred p as >>= fun p => runActions desired deferred p bs := by
  induction as generalizing p with
  | nil => rfl
  | cons a as ih =>
    rw [List.cons_append, runActions, runActions, Dialogue.bind_assoc]
    simp only [ih]

theorem runAction_create {i : Nat} {a : Entry} (ha : desired.entries[i]? = some a)
    (p : Progress) :
    runAction desired deferred p (.create i) =
      if p.ids.length ≠ i then .fail (.countMismatch p.ids.length i)
      else runCreate desired deferred a p := by
  rw [runAction, ha]

/-- What is planned for an entry that both sets have is done, or there is nothing to do. -/
theorem ensures_planned {i : Nat} {id : String} {b a : Entry} {p : Progress} {s : σ}
    {post : Progress → σ → Prop} (ha : desired.entries[i]? = some a)
    (hwork : (runReconcile desired deferred a i id (Plan.coreChanges old desired b a)
      (Plan.weightChange old desired b a) (Plan.remarkChange b a)
      (Plan.statusChange b a) p).Ensures remote inv post err s)
    (hidle : Plan.coreChanges old desired b a = false →
      Plan.weightChange old desired b a = none → Plan.remarkChange b a = none →
      Plan.statusChange b a = none → post p s) :
    (runActions desired deferred p (Plan.reconcile old desired i id b a)).Ensures remote inv
      post err s := by
  unfold Plan.reconcile
  dsimp only
  split
  · rw [runActions, runAction, ha, Dialogue.ensures_bind]
    exact hwork.weaken fun _ _ h => h
  · rename_i hnone
    simp only [Bool.or_eq_true, not_or, Bool.not_eq_true, Option.isSome_eq_false_iff,
      Option.isNone_iff_eq_none] at hnone
    obtain ⟨⟨⟨hcore, hweight⟩, hremark⟩, hstatus⟩ := hnone
    exact hidle hcore hweight hremark hstatus

theorem ensures_creates {A : Nat → Progress → σ → Prop}
    (hcreate : ∀ i a p s, desired.entries[i]? = some a → A i p s →
      (runAction desired deferred p (.create i)).Ensures remote inv (A (i + 1)) err s)
    {i : Nat} {after : List Entry} (hafter : desired.entries.drop i = after)
    {p : Progress} {s : σ} (h : A i p s) :
    (runActions desired deferred p (Plan.createsFrom i after)).Ensures remote inv
      (A (i + after.length)) err s := by
  -- by induction on the entries left, of which `i` is the index of the first
  induction after generalizing i p s with
  | nil =>
    rw [Plan.createsFrom]
    exact h
  | cons a rest ih =>
    obtain ⟨ha, hrest⟩ := of_drop_eq_cons hafter
    rw [Plan.createsFrom, runActions, Dialogue.ensures_bind]
    refine (hcreate i a p s ha h).weaken ?_
    intro p' s' h'
    have hlen : i + (a :: rest).length = i + 1 + rest.length := by
      rw [List.length_cons]
      omega
    rw [hlen]
    exact ih hrest h'

theorem ensures_deletes {before : List (Entry × String)} {A : Nat → Progress → σ → Prop}
    (hdelete : ∀ i b id p s, before[i]? = some (b, id) → A i p s →
      (runAction desired deferred p (.delete i id)).Ensures remote inv (A (i + 1)) err s)
    {i : Nat} {left : List (Entry × String)} (hleft : before.drop i = left)
    {p : Progress} {s : σ} (h : A i p s) :
    (runActions desired deferred p (Plan.actionsFrom old desired i left [])).Ensures remote inv
      (A (i + left.length)) err s := by
  -- by induction on the entries left, of which `i` is the index of the first
  induction left generalizing i p s with
  | nil =>
    rw [Plan.actionsFrom]
    exact h
  | cons b rest ih =>
    obtain ⟨b, id⟩ := b
    obtain ⟨hb, hrest⟩ := of_drop_eq_cons hleft
    rw [Plan.actionsFrom, runActions, Dialogue.ensures_bind]
    refine (hdelete i b id p s hb h).weaken ?_
    intro p' s' h'
    have hlen : i + ((b, id) :: rest).length = i + 1 + rest.length := by
      rw [List.length_cons]
      omega
    rw [hlen]
    exact ih hrest h'

/-- The work on `k` entries that both sets have, from one index on. -/
theorem ensures_reconciles {before : List (Entry × String)} {R : Nat → Progress → σ → Prop}
    (hreconcile : ∀ i b id a p s, before[i]? = some (b, id) → desired.entries[i]? = some a →
      R i p s → (runActions desired deferred p (Plan.reconcile old desired i id b a)).Ensures
        remote inv (R (i + 1)) err s)
    {k i : Nat} (hk : i + k ≤ before.length) (hk' : i + k ≤ desired.entries.length)
    {p : Progress} {s : σ} (h : R i p s) :
    (runActions desired deferred p (Plan.actionsFrom old desired i
      ((before.drop i).take k) ((desired.entries.drop i).take k))).Ensures remote inv
      (R (i + k)) err s := by
  -- by induction on how many are left; the actions of the first entry come off the front
  induction k generalizing i p s with
  | zero =>
    rw [List.take_zero, List.take_zero, Plan.actionsFrom]
    exact h
  | succ k ih =>
    have hi : i < before.length := by omega
    have hi' : i < desired.entries.length := by omega
    rw [List.drop_eq_getElem_cons hi, List.drop_eq_getElem_cons hi', List.take_succ_cons,
      List.take_succ_cons, Plan.actionsFrom, runActions_append, Dialogue.ensures_bind]
    refine (hreconcile i _ _ _ p s (List.getElem?_eq_getElem hi)
      (List.getElem?_eq_getElem hi') h).weaken ?_
    intro p' s' h'
    have hnext : i + (k + 1) = i + 1 + k := by omega
    rw [hnext]
    exact ih (by omega) (by omega) h'

/-- The actions of a plan: the work on the entries that both sets have keeps to `R`, and what
comes after it starts where one of the two sets ends. -/
theorem ensures_actionsFrom {before : List (Entry × String)} {R : Nat → Progress → σ → Prop}
    {post : Progress → σ → Prop}
    (hreconcile : ∀ i b id a p s, before[i]? = some (b, id) → desired.entries[i]? = some a →
      R i p s → (runActions desired deferred p (Plan.reconcile old desired i id b a)).Ensures
        remote inv (R (i + 1)) err s)
    (hcreates : ∀ p s, before.length ≤ desired.entries.length → R before.length p s →
      (runActions desired deferred p (Plan.createsFrom before.length
        (desired.entries.drop before.length))).Ensures remote inv post err s)
    (hdeletes : ∀ p s, desired.entries.length ≤ before.length →
      R desired.entries.length p s →
      (runActions desired deferred p (Plan.actionsFrom old desired desired.entries.length
        (before.drop desired.entries.length) [])).Ensures remote inv post err s)
    {p : Progress} {s : σ} (h : R 0 p s) :
    (runActions desired deferred p
      (Plan.actionsFrom old desired 0 before desired.entries)).Ensures remote inv post err s := by
  rcases Nat.le_total before.length desired.entries.length with hle | hle
  · rw [Plan.actionsFrom_split (k := before.length) (Nat.le_refl _) hle, runActions_append,
      Dialogue.ensures_bind]
    have hfirst := ensures_reconciles hreconcile (k := before.length) (i := 0) (by omega)
      (by omega) h
    simp only [List.drop_zero, Nat.zero_add] at hfirst ⊢
    refine hfirst.weaken ?_
    intro p' s' h'
    rw [List.drop_length]
    exact hcreates p' s' hle h'
  · rw [Plan.actionsFrom_split (k := desired.entries.length) hle (Nat.le_refl _),
      runActions_append, Dialogue.ensures_bind]
    have hfirst := ensures_reconciles hreconcile (k := desired.entries.length) (i := 0)
      (by omega) (by omega) h
    simp only [List.drop_zero, Nat.zero_add] at hfirst ⊢
    refine hfirst.weaken ?_
    intro p' s' h'
    rw [List.drop_length]
    exact hdeletes p' s' hle h'

/-! ## A whole update -/

/-- What an update does once its actions are done. -/
def settle (desired : RecordSet) (weighting : Option Switch) (p : Progress) :
    Operation TrackedSet := do
  whenSome weighting (setWeighting desired)
  weighPending p.pending
  let id ← resourceId (p.ids.take desired.entries.length)
  readBack id desired

/-- An admissible update does its actions and settles, or only reads where there is nothing to
do. -/
theorem update_eq {prior : TrackedSet} (hfault : desired.fault? = none)
    (hdomain : prior.config.domain = desired.domain)
    (hsize : prior.id.ids.length = prior.config.entries.length) {plan : Plan}
    (hplan : plan = ⟨Plan.actionsFrom prior.config desired 0
      (prior.config.entries.zip prior.id.ids) desired.entries,
        Plan.weightingChange prior.config desired⟩) :
    update prior desired =
      if plan.isEmpty then readBack prior.id desired
      else
        runActions desired plan.defersWeights ⟨prior.id.ids, [], none⟩ plan.actions >>=
          settle desired plan.weighting := by
  unfold update Lifecycle.plan accept
  rw [hfault, Plan.between_eq hdomain hsize, ← hplan]
  rfl

/-- The calls of the planned actions are calls of the update. -/
theorem steps_actions_subset {prior : TrackedSet} (hfault : desired.fault? = none)
    (hdomain : prior.config.domain = desired.domain)
    (hsize : prior.id.ids.length = prior.config.entries.length) (s : σ) :
    (runActions desired (Plan.weightingChange prior.config desired == some .enabled)
      ⟨prior.id.ids, [], none⟩ (Plan.actionsFrom prior.config desired 0
        (prior.config.entries.zip prior.id.ids) desired.entries)).steps remote s ⊆
      (update prior desired).steps remote s := by
  rw [update_eq hfault hdomain hsize rfl]
  split
  · rename_i hempty
    simp only [Plan.isEmpty, Bool.and_eq_true, List.isEmpty_iff] at hempty
    rw [hempty.1]
    exact List.nil_subset _
  · exact Dialogue.steps_bind_left

theorem update_of_plan_fail {prior : TrackedSet} {e : LifecycleError}
    (h : Lifecycle.plan prior desired = .fail e) : update prior desired = .fail e := by
  unfold update
  rw [h, Dialogue.fail_bind]

/-- A refused update ends with an error before any call. -/
theorem update_refused {prior : TrackedSet}
    (h : desired.fault? ≠ none ∨ prior.config.domain ≠ desired.domain ∨
      prior.id.ids.length ≠ prior.config.entries.length) :
    ∃ e, update prior desired = .fail e := by
  rcases Lifecycle.plan_cases prior desired with
    ⟨-, _, hplan⟩ | ⟨-, hplan⟩ | ⟨⟨hfault, hdomain, hsize⟩, -⟩
  · exact ⟨_, update_of_plan_fail hplan⟩
  · exact ⟨_, update_of_plan_fail hplan⟩
  · rcases h with h | h | h
    · exact absurd hfault h
    · exact absurd hdomain h
    · exact absurd hsize h

/-- An update either is refused, or does its actions and settles; where there is nothing to do
it only reads. -/
theorem ensures_update {prior : TrackedSet} {post : TrackedSet → σ → Prop}
    (done : Progress → σ → Prop) {s : σ}
    (hrefused : desired.fault? ≠ none ∨ prior.config.domain ≠ desired.domain ∨
      prior.id.ids.length ≠ prior.config.entries.length → ∀ e, err e s)
    (hactions : desired.fault? = none → prior.config.domain = desired.domain →
      prior.id.ids.length = prior.config.entries.length →
      (runActions desired (Plan.weightingChange prior.config desired == some .enabled)
        ⟨prior.id.ids, [], none⟩
        (Plan.actionsFrom prior.config desired 0 (prior.config.entries.zip prior.id.ids)
          desired.entries)).Ensures remote inv done err s)
    (hsettle : ∀ p s', done p s' →
      (settle desired (Plan.weightingChange prior.config desired) p).Ensures remote inv post err
        s')
    (hidle : Plan.actionsFrom prior.config desired 0 (prior.config.entries.zip prior.id.ids)
        desired.entries = [] →
      Plan.weightingChange prior.config desired = none → done ⟨prior.id.ids, [], none⟩ s →
      (readBack prior.id desired).Ensures remote inv post err s) :
    (update prior desired).Ensures remote inv post err s := by
  by_cases h : desired.fault? ≠ none ∨ prior.config.domain ≠ desired.domain ∨
      prior.id.ids.length ≠ prior.config.entries.length
  · obtain ⟨e, he⟩ := update_refused h
    rw [he]
    exact hrefused h e
  · simp only [not_or, ne_eq, Decidable.not_not] at h
    obtain ⟨hfault, hdomain, hsize⟩ := h
    have hdone := hactions hfault hdomain hsize
    rw [update_eq hfault hdomain hsize rfl]
    split
    · rename_i hempty
      simp only [Plan.isEmpty, Bool.and_eq_true, List.isEmpty_iff, Option.isNone_iff_eq_none]
        at hempty
      -- an empty plan has no actions, so they are done where they would start
      rw [hempty.1] at hdone
      exact hidle hempty.1 hempty.2 hdone
    · rw [Dialogue.ensures_bind]
      exact hdone.weaken hsettle

end

end WeightedDns
