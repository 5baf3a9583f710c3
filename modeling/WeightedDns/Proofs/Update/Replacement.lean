import WeightedDns.Proofs.Create.Outcome
import WeightedDns.Proofs.Update.Frame
import WeightedDns.Proofs.Update.Repeats
import WeightedDns.Proofs.Update.Written

/-!
# Records in place of those that are gone

Work on an entry whose record is gone adds a new one. It does not look for one that is there
already, as a create does: where a record of host, type and value is stored, adding another one is
refused, and with it the update (`update_replaces_iff`).
-/

namespace WeightedDns

open Lifecycle

namespace Plan

section

variable {old new : RecordSet} {j : Nat} {id : String} {core : Bool} {weight : Option UInt32}
  {remark : Option String} {status : Option Switch}

theorem reconcile_notMem_createsFrom (i : Nat) (after : List Entry) :
    Action.reconcile j id core weight remark status ∉ createsFrom i after := by
  induction after generalizing i with
  | nil => exact List.not_mem_nil
  | cons e after ih => simpa [createsFrom] using ih (i + 1)

theorem reconcile_notMem_deletes (i : Nat) (before : List (Entry × String)) :
    Action.reconcile j id core weight remark status ∉ actionsFrom old new i before [] := by
  induction before generalizing i with
  | nil => exact List.not_mem_nil
  | cons x before ih => simpa [actionsFrom] using ih (i + 1)

/-- Up to work on an entry that both sets have, a plan only works on such entries. -/
theorem reconciles_before {i : Nat} {before : List (Entry × String)} {after : List Entry}
    {first rest : List Action}
    (h : actionsFrom old new i before after =
      first ++ .reconcile j id core weight remark status :: rest) :
    ∀ a ∈ first, ∃ j id core weight remark status,
      a = .reconcile j id core weight remark status ∧ id ∈ before.map (·.2) := by
  have hmem : ∀ {i before after first},
      actionsFrom old new i before after =
        first ++ .reconcile j id core weight remark status :: rest →
      Action.reconcile j id core weight remark status ∈ actionsFrom old new i before after := by
    intro i before after first h
    rw [h]
    exact List.mem_append_right _ List.mem_cons_self
  -- by induction on the tracked entries, as long as there is a new one beside each
  induction before generalizing i after first with
  | nil => exact absurd (hmem h) (reconcile_notMem_createsFrom i after)
  | cons x before ih =>
    obtain ⟨b, trackedId⟩ := x
    cases after with
    | nil => exact absurd (hmem h) (reconcile_notMem_deletes i _)
    | cons e after =>
      have hlater : ∀ {first}, actionsFrom old new (i + 1) before after =
          first ++ .reconcile j id core weight remark status :: rest →
          ∀ a ∈ first, ∃ j id core weight remark status,
            a = .reconcile j id core weight remark status ∧
              id ∈ ((b, trackedId) :: before).map (·.2) := by
        intro first h a ha
        obtain ⟨j, id, core, weight, remark, status, rfl, hid⟩ := ih h a ha
        exact ⟨j, id, core, weight, remark, status, rfl, List.mem_cons_of_mem _ hid⟩
      rw [actionsFrom] at h
      unfold reconcile at h
      dsimp only at h
      split at h
      · cases first with
        | nil => exact fun a ha => absurd ha List.not_mem_nil
        | cons a first =>
          obtain ⟨rfl, hrest⟩ := List.cons.inj h
          intro a ha
          rcases List.mem_cons.mp ha with rfl | ha
          · exact ⟨_, _, _, _, _, _, rfl, List.mem_cons_self⟩
          · exact hlater hrest a ha
      · exact hlater h

end

end Plan

section

variable {prior : TrackedSet} {desired : RecordSet} {plan : Plan} {first rest : List Action}
  {a : Action}

/-- The first of the planned actions of an update. -/
def Lifecycle.firstActions (prior : TrackedSet) (desired : RecordSet) (plan : Plan)
    (first : List Action) : Operation Progress :=
  runActions desired plan.defersWeights ⟨prior.id.ids, [], none⟩ first

/-- An update comes to each of its actions after those before it. -/
theorem update_eq_firstActions (hplan : Lifecycle.plan prior desired = .done plan)
    (hactions : plan.actions = first ++ a :: rest) :
    update prior desired = firstActions prior desired plan first >>= fun p =>
      runAction desired plan.defersWeights p a >>= fun p =>
        runActions desired plan.defersWeights p rest >>= settle desired plan.weighting := by
  have hsome : ¬ plan.isEmpty = true := by simp [Plan.isEmpty, hactions]
  have hupdate : update prior desired = if plan.isEmpty then readBack prior.id desired
      else runActions desired plan.defersWeights ⟨prior.id.ids, [], none⟩ plan.actions >>=
        settle desired plan.weighting := by
    unfold update
    rw [hplan]
    rfl
  rw [hupdate, if_neg hsome, hactions, runActions_append, Dialogue.bind_assoc]
  simp only [runActions, Dialogue.bind_assoc, firstActions]

end

namespace Zone

variable {z : Zone} {s : RecordSet} {e : Entry} {id : String}

/-- The error of adding a record where one of host, type and value is stored. -/
def taken (s : RecordSet) (e : Entry) : LifecycleError :=
  .remote (.createRecord (setName s) e.value) ⟨provider, .recordExists s.host none⟩

theorem run_add (calm : z.failures = []) (s : RecordSet) (e : Entry) :
    (add s e).run remote z =
      if z.has s e then (.error (taken s e), z)
      else (.ok z.freshId, (z.store (.of s e)).note (.addRecord (.of s e))) := by
  have hperform : z.perform (.addRecord (.of s e)) =
      if z.has s e then (error (.recordExists s.host none), z)
      else (.ok z.freshId, (z.store (.of s e)).note (.addRecord (.of s e))) := rfl
  refine (run_attempt calm _ (.addRecord (.of s e))).trans ?_
  rw [hperform]
  cases z.has s e <;> rfl

theorem run_fetch?_of_gone (calm : z.failures = []) (hgone : z.record? id = none) :
    (fetch? id).run remote z = (.ok none, z) := by
  have hanswer : remote.answer (.describeRecord id) z = (error (missing id), z) := by
    refine (answer_of_allows (lookup_failures_eq_none calm _)).trans ?_
    simp only [perform, hgone]
  unfold fetch? Dialogue.answerOf
  rw [Dialogue.ask_bind, Dialogue.run, hanswer]
  rfl

/-- Where the record of an entry is gone, the work on it is to add another one. -/
theorem run_reconcileCore_of_gone (calm : z.failures = []) (hgone : z.record? id = none)
    (s : RecordSet) (e : Entry) (core : Bool) :
    (reconcileCore s e id core).run remote z =
      if z.has s e then (.error (taken s e), z)
      else (.ok (some z.freshId), (z.store (.of s e)).note (.addRecord (.of s e))) := by
  unfold reconcileCore
  rw [Dialogue.run_bind, run_fetch?_of_gone calm hgone]
  dsimp only
  rw [Dialogue.run_bind, run_add calm]
  cases z.has s e <;> rfl

/-- The rule of creates takes over the first listed record of the value of an entry. -/
theorem run_ensure_of_listed (tidy : z.Tidy) (calm : z.failures = [])
    (hlisted : ∃ r ∈ z.listing s, r.value = e.value) :
    ∃ r ∈ z.records, ∃ z', (ensure s (z.listing s) e).run remote z = (.ok (r.id, .of r), z') := by
  obtain ⟨r, hr, hvalue⟩ := hlisted
  have hsome : ((z.listing s).find? fun r => r.value == e.value).isSome :=
    List.find?_isSome.mpr ⟨r, hr, by simp [hvalue]⟩
  obtain ⟨found, hfind⟩ := Option.isSome_iff_exists.mp hsome
  obtain ⟨hfound, -⟩ := mem_listing (List.mem_of_find?_eq_some hfind)
  refine ⟨found, hfound, ?_⟩
  unfold ensure
  rw [hfind]
  dsimp only
  split
  · have hchange : (overwrite s e found.id).run remote z = (.ok (), _) :=
      (run_attempt calm _ _).trans (by
        rw [perform, tidy.change_of_record? (tidy.record?_of_mem hfound)]; rfl)
    rw [Dialogue.run_bind, hchange]
    exact ⟨_, rfl⟩
  · exact ⟨z, rfl⟩

/-- Work on entries that are kept spares records that are not tracked. -/
theorem Steady.reconciles {kept : StoredRecord → Prop} {z₀ : Zone} {p : Progress}
    (h : Steady kept z₀ s p z) (deferred : Bool) {actions : List Action}
    (hactions : ∀ a ∈ actions, ∃ i id core weight remark status,
      a = .reconcile i id core weight remark status ∧ Loose kept z₀ id) :
    Sparing kept z₀ (runActions s deferred p actions) (Steady kept z₀ s) z := by
  induction actions generalizing p z with
  | nil => exact h
  | cons a rest ih =>
    obtain ⟨i, id, core, weight, remark, status, rfl, hloose⟩ := hactions a List.mem_cons_self
    have hrest := fun a ha => hactions a (List.mem_cons_of_mem _ ha)
    unfold Sparing
    rw [runActions, runAction, Dialogue.ensures_bind]
    cases s.entries[i]? with
    | none => exact ih h hrest
    | some e =>
      exact (h.reconcile hloose deferred e i core weight remark status).weaken
        fun p' z' h' => ih h' hrest

section

variable {prior : TrackedSet} {desired : RecordSet} {plan : Plan} {first rest : List Action}
  {i : Nat} {core : Bool} {weight : Option UInt32} {remark : Option String}
  {status : Option Switch}

/-- Where adding a record in place of one that is gone is refused, the update is. -/
theorem run_update_of_gone {p : Progress} {z' : Zone}
    (hplan : Lifecycle.plan prior desired = .done plan)
    (hactions : plan.actions = first ++ .reconcile i id core weight remark status :: rest)
    (he : desired.entries[i]? = some e) (tidy : z'.Tidy) (calm : z'.failures = [])
    (hgone : z'.record? id = none)
    (hfirst : (firstActions prior desired plan first).run remote z = (.ok p, z')) :
    (update prior desired).run remote z = (.error (taken desired e), z') ↔
      z'.has desired e = true := by
  rw [update_eq_firstActions hplan hactions, Dialogue.run_bind, hfirst]
  dsimp only
  rw [runAction, he]
  dsimp only
  rw [runReconcile_eq, Dialogue.bind_assoc, Dialogue.run_bind, run_reconcileCore_of_gone calm hgone]
  cases hhas : z'.has desired e with
  | true => exact iff_of_true rfl rfl
  | false =>
    refine iff_of_false ?_ (by decide)
    -- the journal has grown by the record that has been added, so the zone is another one
    rw [if_neg (by decide)]
    intro hrun
    have hlater := later_of_run ((tidy.store (.of desired e)).note _) hrun
    have hlength := hlater.journal.length_le
    simp only [Zone.note, Zone.store, List.length_append, List.length_singleton] at hlength
    omega

/-- Once an update comes to an entry whose record is gone, it ends with the error that a record
exists exactly if one of host, type and value is stored by then. Where such a record was stored all
along and is not tracked, the update never succeeds, although the rule of creates would take over a
record that is there. -/
theorem update_replaces_iff (h : z.Reachable) (calm : z.failures = [])
    (hplan : Lifecycle.plan prior desired = .done plan)
    (hactions : plan.actions = first ++ .reconcile i id core weight remark status :: rest)
    (he : desired.entries[i]? = some e) (hgone : z.record? id = none) (issued : z.Issued [id]) :
    (∀ error z', (firstActions prior desired plan first).run remote z = (.error error, z') →
      (update prior desired).run remote z = (.error error, z')) ∧
    (∀ p z', (firstActions prior desired plan first).run remote z = (.ok p, z') →
      ((update prior desired).run remote z = (.error (taken desired e), z') ↔
        z'.has desired e = true)) ∧
    ∀ r ∈ z.records, r.Duplicates desired e → r.id ∉ prior.id.ids →
      (∀ p z', (firstActions prior desired plan first).run remote z = (.ok p, z') →
        (update prior desired).run remote z = (.error (taken desired e), z')) ∧
      (∃ error z', (update prior desired).run remote z = (.error error, z')) ∧
      (z.records.length ≤ walkReach → ∃ r' ∈ z.records, ∃ z',
        (ensure desired (z.listing desired) e).run remote z = (.ok (r'.id, .of r'), z')) := by
  have hiff : ∀ p z', (firstActions prior desired plan first).run remote z = (.ok p, z') →
      ((update prior desired).run remote z = (.error (taken desired e), z') ↔
        z'.has desired e = true) := by
    intro p z' hfirst
    have hlater := later_of_run h.tidy hfirst
    have hgone' : z'.record? id = none := by
      by_contra hthere
      have hsome := hlater.isSome_of_issued issued List.mem_cons_self
        (Option.isSome_iff_ne_none.mpr hthere)
      rw [hgone] at hsome
      cases hsome
    have hcalm : z'.failures = [] := hlater.failures.trans calm
    exact run_update_of_gone hplan hactions he hlater.tidy hcalm hgone' hfirst
  have hstopped : ∀ error z',
      (firstActions prior desired plan first).run remote z = (.error error, z') →
      (update prior desired).run remote z = (.error error, z') := by
    intro error z' hfirst
    rw [update_eq_firstActions hplan hactions, Dialogue.run_bind, hfirst]
  refine ⟨hstopped, hiff, ?_⟩
  intro r hr hduplicates huntracked
  have hrefused : ∀ p z', (firstActions prior desired plan first).run remote z = (.ok p, z') →
      (update prior desired).run remote z = (.error (taken desired e), z') := by
    intro p z' hfirst
    -- what comes before is work on tracked records, which leaves the record where it is
    have hstart : Steady (· = r) z desired ⟨prior.id.ids, [], none⟩ z :=
      ⟨.refl h.tidy, by simp, by simp⟩
    have hreconciles : ∀ a ∈ first, ∃ i id core weight remark status,
        a = .reconcile i id core weight remark status ∧ Loose (· = r) z id := by
      obtain ⟨-, hplanned⟩ := of_plan_eq_done hplan
      rw [hplanned] at hactions
      intro a ha
      obtain ⟨i, id, core, weight, remark, status, rfl, hid⟩ :=
        Plan.reconciles_before hactions a ha
      refine ⟨i, id, core, weight, remark, status, rfl, ?_⟩
      rintro _ - rfl rfl
      obtain ⟨x, hx, hxid⟩ := List.mem_map.mp hid
      exact huntracked (hxid ▸ (List.of_mem_zip hx).2)
    have hsteady := (hstart.reconciles plan.defersWeights hreconciles).post_of_run hfirst
    have hthere := mem_of_record? (hsteady.spares.keeps r hr rfl)
    exact (hiff p z' hfirst).mpr
      (has_iff.mpr ⟨r, hthere, hduplicates.host, hduplicates.type, hduplicates.value⟩)
  refine ⟨hrefused, ?_, ?_⟩
  · rcases hfirst : (firstActions prior desired plan first).run remote z with ⟨error | p, z'⟩
    · exact ⟨error, z', hstopped error z' hfirst⟩
    · exact ⟨_, z', hrefused p z' hfirst⟩
  · intro hreach
    exact run_ensure_of_listed h.tidy calm
      ⟨r, hduplicates.mem_listing hr hreach, hduplicates.value⟩

end

/-- The record of the set has been taken away, and then one for the same value put in. -/
def reentered : Zone :=
  ((empty.seed "www" .a "192.0.2.1" 600).remove "1000").seed "www" .a "192.0.2.1" 600

theorem reentered_reachable : reentered.Reachable :=
  .seed _ _ _ _ (.remove _ (.seed _ _ _ _ .empty))

/-- The set with another time to live. -/
def shortLived : RecordSet :=
  { plain "www" ["192.0.2.1"] with entries := [⟨"192.0.2.1", 60, 1, .enabled, none⟩] }

/-- What is planned for the one entry of the set. -/
def shortLivedPlan : Plan := ⟨[.reconcile 0 "1000" true none none none], none⟩

theorem plan_shortLived : Lifecycle.plan soloRead shortLived = .done shortLivedPlan := rfl

theorem reentered_issued : reentered.Issued ["1000"] := by
  intro id hid n hn heq
  obtain rfl := List.mem_singleton.mp hid
  have hsame : 1000 = n := toString_inj heq
  have hnext : reentered.nextId = 1002 := rfl
  omega

theorem reentered_refused :
    ∃ error z', (update soloRead shortLived).run remote reentered = (.error error, z') := by
  have hmem : StoredRecord.mk "1001" "example.com" "www" .a "192.0.2.1" 600 RecordSet.defaultLine
      (some 1) .enabled none none false ∈ reentered.records := by decide
  have hactions : shortLivedPlan.actions =
      [] ++ .reconcile 0 "1000" true none none none :: [] := rfl
  obtain ⟨-, -, hblocked⟩ := update_replaces_iff reentered_reachable rfl plan_shortLived hactions
    rfl rfl reentered_issued
  exact (hblocked _ hmem ⟨rfl, rfl, rfl, rfl⟩ (by decide)).2.1

/-- An update cannot put a record in place of one that is gone where somebody else has done so. -/
theorem update_not_always_replaces :
    ¬ ∀ (z : Zone) (prior : TrackedSet) (desired : RecordSet) (plan : Plan) (i : Nat) (id : String)
      (core : Bool) (weight : Option UInt32) (remark : Option String) (status : Option Switch)
      (e : Entry) (r : StoredRecord), z.Reachable → z.failures = [] →
      (∀ r ∈ z.records, r.domain = domain) → desired.domain = domain →
      Lifecycle.plan prior desired = .done plan →
      .reconcile i id core weight remark status ∈ plan.actions → desired.entries[i]? = some e →
      z.record? id = none → z.Issued prior.id.ids → r ∈ z.records → r.Duplicates desired e →
      r.id ∉ prior.id.ids →
      ∀ purpose provider host note z', (update prior desired).run remote z ≠
        (.error (.remote purpose ⟨provider, .recordExists host note⟩), z') := by
  intro h
  have hrun : (update soloRead shortLived).run remote reentered =
      (.error (taken shortLived ⟨"192.0.2.1", 60, 1, .enabled, none⟩), reentered) := by rfl
  exact h reentered soloRead shortLived shortLivedPlan 0 "1000" true none none none _
    ⟨"1001", "example.com", "www", .a, "192.0.2.1", 600, RecordSet.defaultLine, some 1, .enabled,
      none, none, false⟩ reentered_reachable rfl (by decide) rfl plan_shortLived
    List.mem_cons_self rfl rfl reentered_issued (by decide) ⟨rfl, rfl, rfl, rfl⟩ (by decide) _ _ _ _
    _ hrun

end Zone

end WeightedDns
