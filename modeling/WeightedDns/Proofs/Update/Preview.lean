import WeightedDns.Proofs.Update.Group
import WeightedDns.Proofs.Update.Written

/-!
# What a plan shows of an update

A plan is made without a call, and it shows what the update will write. As long as no record that is
to be kept is found gone, an update writes nothing that is not planned, and where it gets as far as
reading the set back it has written all that is planned, once (`update_keeps_to_plan`).
-/

namespace WeightedDns

open Lifecycle

/-! ## Keeping to a plan -/

/-- The call that adds the record of an entry that is to get one. -/
def Action.addition? (s : RecordSet) : Action → Option Call
  | .create i => (s.entries[i]?).map fun e => .addRecord (.of s e)
  | _ => none

/-- The call that deletes a record that is to go. -/
def Action.deletion? : Action → Option Call
  | .delete _ id => some (.deleteRecord id)
  | _ => none

/-- A record has come to an entry under an ID: it was added for it, or listed with its value. -/
def Supplied (s : RecordSet) (e : Entry) (log : List Exchange) (id : String) : Prop :=
  AddedAs s e log id ∨ ∃ r, Listed s log r ∧ r.value = e.value ∧ r.id = id

/-- The writing calls of a log keep to a plan. -/
structure KeepsTo (desired : RecordSet) (plan : Plan) (log : List Exchange) : Prop where
  /-- Records are added for entries that are to get one, at most once for each. -/
  additions : (made log .addRecord).Sublist (plan.actions.filterMap (·.addition? desired))
  /-- Records are changed whose core is to be checked, or that are taken over. -/
  changes : ∀ change, .changeRecord change ∈ written log →
    (∃ i id weight remark status e, .reconcile i id true weight remark status ∈ plan.actions ∧
      desired.entries[i]? = some e ∧ change = .of desired e id) ∨
    (∃ i e r, .create i ∈ plan.actions ∧ desired.entries[i]? = some e ∧ Listed desired log r ∧
      r.value = e.value ∧ change = .of desired e r.id)
  /-- Records are deleted as planned, in the order of the plan. -/
  deletions : made log .deleteRecord <+: plan.actions.filterMap Action.deletion?
  weights : ∀ id weight, .setWeight id weight ∈ written log →
    (∃ i checkCore remark status,
      .reconcile i id checkCore (some weight) remark status ∈ plan.actions) ∨
    (∃ i e, .create i ∈ plan.actions ∧ desired.entries[i]? = some e ∧ Supplied desired e log id ∧
      weight = e.weight)
  remarks : ∀ id remark, .setRemark id remark ∈ written log →
    (∃ i checkCore weight status,
      .reconcile i id checkCore weight (some remark) status ∈ plan.actions) ∨
    (∃ i e, .create i ∈ plan.actions ∧ desired.entries[i]? = some e ∧ Supplied desired e log id ∧
      remark = e.remarkText)
  statuses : ∀ id status, .setStatus id status ∈ written log →
    (∃ i checkCore weight remark,
      .reconcile i id checkCore weight remark (some status) ∈ plan.actions) ∨
    (∃ i e, .create i ∈ plan.actions ∧ desired.entries[i]? = some e ∧ Supplied desired e log id ∧
      status = e.status)
  /-- Weighting is switched only as planned, and once. -/
  switches : made log .setWeighting <+: (plan.weighting.map (switchCall desired)).toList

/-- Each action of a plan has had its planned work done, exactly once. -/
def Completes (desired : RecordSet) (plan : Plan) (log : List Exchange) : Prop :=
  ∃ works, List.Forall₂ (Planned desired log) plan.actions works ∧
    made log .setWeight = works.flatMap (·.weight) ∧
    made log .setRemark = works.flatMap (·.remark) ∧
    made log .setStatus = works.flatMap (·.status) ∧
    made log .deleteRecord = plan.actions.filterMap Action.deletion? ∧
    made log .setWeighting = (plan.weighting.map (switchCall desired)).toList

section

variable {s : RecordSet} {log : List Exchange} {actions : List Action} {a : Action} {w : Work}
  {works : List Work} {i : Nat} {e : Entry}

/-- No record that is to be kept has been found gone. -/
def AllFound (actions : List Action) (log : List Exchange) : Prop :=
  ∀ i id checkCore weight remark status,
    .reconcile i id checkCore weight remark status ∈ actions → ¬ FoundGone log id

/-- Whether fetching a record has failed. -/
def Exchange.missesRecord : Exchange → Bool
  | ⟨.describeRecord _, .error _⟩ => true
  | _ => false

/-- Where every record that is fetched is there, none is found gone. -/
theorem allFound_of_all (h : log.all (!·.missesRecord) = true) (actions : List Action) :
    AllFound actions log := by
  rintro i id checkCore weight remark status - ⟨e, hmem, -⟩
  exact absurd (List.all_eq_true.mp h _ hmem) Bool.false_ne_true

/-- Work that is done as planned, or stopped when a record was to be added for an entry. -/
def Expected (s : RecordSet) (log : List Exchange) (a : Action) (w : Work) : Prop :=
  Planned s log a w ∨
    ∃ i e, a = .create i ∧ s.entries[i]? = some e ∧ w = .only [.addRecord (.of s e)]

theorem Turn.planned_of_found (hfound : AllFound actions log) (ha : a ∈ actions)
    (h : Turn s log a w) : Planned s log a w := by
  cases h with
  | planned h => exact h
  | replaced _ hgone => exact absurd hgone (hfound _ _ _ _ _ _ ha)

theorem Begun.expected_of_found (hfound : AllFound actions log) (ha : a ∈ actions)
    (h : Begun s log a w) : Expected s log a w := by
  cases h with
  | turn h => exact .inl (h.planned_of_found hfound ha)
  | creating he => exact .inr ⟨_, _, rfl, he, rfl⟩
  | replacing _ hgone => exact absurd hgone (hfound _ _ _ _ _ _ ha)

theorem forall₂_of_mem {α β : Type} {R R' : α → β → Prop} {l : List α} {l' : List β}
    (h : List.Forall₂ R l l') (himp : ∀ a ∈ l, ∀ b, R a b → R' a b) : List.Forall₂ R' l l' := by
  induction h with
  | nil => exact .nil
  | cons hab _ ih =>
    exact .cons (himp _ List.mem_cons_self _ hab)
      (ih fun a ha => himp a (List.mem_cons_of_mem _ ha))

/-! ### One turn -/

/-- What is set is set on a record that is kept, as planned, or on one that has come to an entry. -/
theorem Expected.cases (h : Expected s log a w) :
    (∃ core i id checkCore weight remark status,
      a = .reconcile i id checkCore weight remark status ∧
        w = .on core id weight remark status) ∨
    (∃ core i e id carried, a = .create i ∧ s.entries[i]? = some e ∧ Supplied s e log id ∧
      w = .placing s e core id carried) ∨
    ∃ core, w = .only core := by
  rcases h with h | ⟨_, _, -, -, rfl⟩
  · cases h with
    | kept => exact .inl ⟨_, _, _, _, _, _, _, rfl, rfl⟩
    | added he hid => exact .inr (.inl ⟨_, _, _, _, _, rfl, he, .inl hid, rfl⟩)
    | adopted he hr hvalue =>
      exact .inr (.inl ⟨_, _, _, _, _, rfl, he, .inr ⟨_, hr, hvalue, rfl⟩, rfl⟩)
    | deleted => exact .inr (.inr ⟨_, rfl⟩)
  · exact .inr (.inr ⟨_, rfl⟩)

/-- A weight is that of the plan, or that of the entry to which the record has come. -/
theorem Expected.weight {id : String} {weight : UInt32} (h : Expected s log a w)
    (hc : .setWeight id weight ∈ w.weight) :
    (∃ i checkCore remark status, a = .reconcile i id checkCore (some weight) remark status) ∨
      ∃ i e, a = .create i ∧ s.entries[i]? = some e ∧ Supplied s e log id ∧
        weight = e.weight := by
  rcases h.cases with ⟨core, i, id', checkCore, x, remark, status, rfl, rfl⟩ |
    ⟨core, i, e, id', carried, rfl, he, hid, rfl⟩ | ⟨core, rfl⟩
  · obtain ⟨_, rfl, hsame⟩ := mem_map_toList hc
    cases hsame
    exact .inl ⟨_, _, _, _, rfl⟩
  · obtain ⟨_, hstart, hsame⟩ := mem_map_toList hc
    cases hsame
    exact .inr ⟨_, _, rfl, he, hid, (startingWeight_eq_some hstart).1⟩
  · cases hc

theorem Expected.remark {id remark : String} (h : Expected s log a w)
    (hc : .setRemark id remark ∈ w.remark) :
    (∃ i checkCore weight status, a = .reconcile i id checkCore weight (some remark) status) ∨
      ∃ i e, a = .create i ∧ s.entries[i]? = some e ∧ Supplied s e log id ∧
        remark = e.remarkText := by
  rcases h.cases with ⟨core, i, id', checkCore, weight, x, status, rfl, rfl⟩ |
    ⟨core, i, e, id', carried, rfl, he, hid, rfl⟩ | ⟨core, rfl⟩
  · obtain ⟨_, rfl, hsame⟩ := mem_map_toList hc
    cases hsame
    exact .inl ⟨_, _, _, _, rfl⟩
  · obtain ⟨_, hmissing, hsame⟩ := mem_map_toList hc
    cases hsame
    exact .inr ⟨_, _, rfl, he, hid, missingRemark_eq_some hmissing⟩
  · cases hc

theorem Expected.status {id : String} {status : Switch} (h : Expected s log a w)
    (hc : .setStatus id status ∈ w.status) :
    (∃ i checkCore weight remark, a = .reconcile i id checkCore weight remark (some status)) ∨
      ∃ i e, a = .create i ∧ s.entries[i]? = some e ∧ Supplied s e log id ∧
        status = e.status := by
  rcases h.cases with ⟨core, i, id', checkCore, weight, remark, x, rfl, rfl⟩ |
    ⟨core, i, e, id', carried, rfl, he, hid, rfl⟩ | ⟨core, rfl⟩
  · obtain ⟨_, rfl, hsame⟩ := mem_map_toList hc
    cases hsame
    exact .inl ⟨_, _, _, _, rfl⟩
  · obtain ⟨_, hmissing, hsame⟩ := mem_map_toList hc
    cases hsame
    exact .inr ⟨_, _, rfl, he, hid, missingStatus_eq_some hmissing⟩
  · cases hc

/-- A record is changed whose core is to be checked, or that is taken over. -/
theorem Expected.change {change : RecordChange} (h : Expected s log a w)
    (hc : .changeRecord change ∈ w.core) :
    (∃ i id weight remark status e, a = .reconcile i id true weight remark status ∧
      s.entries[i]? = some e ∧ change = .of s e id) ∨
    (∃ i e r, a = .create i ∧ s.entries[i]? = some e ∧ Listed s log r ∧ r.value = e.value ∧
      change = .of s e r.id) := by
  rcases h with h | ⟨_, _, -, -, rfl⟩
  · cases h with
    | kept he hcore =>
      rcases hcore with rfl | ⟨rfl, rfl⟩
      · cases hc
      · cases List.mem_singleton.mp hc
        exact .inl ⟨_, _, _, _, _, _, rfl, he, rfl⟩
    | added => cases List.mem_singleton.mp hc
    | adopted he hr hvalue hcore =>
      rcases hcore with rfl | rfl
      · cases hc
      · cases List.mem_singleton.mp hc
        exact .inr ⟨_, _, _, rfl, he, hr, hvalue, rfl⟩
    | deleted => cases List.mem_singleton.mp hc
  · cases List.mem_singleton.mp hc

theorem Expected.deletion (h : Expected s log a w) :
    w.part .deleteRecord = a.deletion?.toList := by
  rcases h with h | ⟨_, _, rfl, -, rfl⟩
  · cases h with
    | kept _ hcore => rcases hcore with rfl | ⟨-, rfl⟩ <;> rfl
    | added => rfl
    | adopted _ _ _ hcore => rcases hcore with rfl | rfl <;> rfl
    | deleted => rfl
  · rfl

theorem Expected.addition (h : Expected s log a w) :
    (w.part .addRecord).Sublist (a.addition? s).toList := by
  rcases h with h | ⟨i, e, rfl, he, rfl⟩
  · cases h with
    | kept _ hcore => rcases hcore with rfl | ⟨-, rfl⟩ <;> exact List.nil_sublist _
    | added he =>
      simp only [Action.addition?, he, Option.map_some]
      exact List.Sublist.refl _
    | adopted _ _ _ hcore => rcases hcore with rfl | rfl <;> exact List.nil_sublist _
    | deleted => exact List.nil_sublist _
  · simp only [Action.addition?, he, Option.map_some]
    exact List.Sublist.refl _

/-! ### A whole update -/

theorem deletions_eq (h : List.Forall₂ (Expected s log) actions works) :
    works.flatMap (·.part .deleteRecord) = actions.filterMap Action.deletion? := by
  induction h with
  | nil => rfl
  | cons ha _ ih =>
    rw [List.flatMap_cons, ih, ha.deletion, List.filterMap_cons]
    cases Action.deletion? _ <;> rfl

theorem additions_sublist (h : List.Forall₂ (Expected s log) actions works) :
    (works.flatMap (·.part .addRecord)).Sublist (actions.filterMap (·.addition? s)) := by
  induction h with
  | nil => exact List.Sublist.refl _
  | cons ha _ ih =>
    rename_i a w actions works _
    have hcons : (a :: actions).filterMap (·.addition? s) =
        (a.addition? s).toList ++ actions.filterMap (·.addition? s) := by
      rw [List.filterMap_cons]
      cases a.addition? s <;> rfl
    rw [List.flatMap_cons, hcons]
    exact ha.addition.append ih

/-- A writing call of an update is in the work of one of its turns. -/
theorem exists_turn {plan : Plan} (hsorted : ∀ w ∈ works, w.Sorted)
    (hworks : List.Forall₂ (Expected s log) plan.actions works)
    (hwritten : written log <+: plan.calls s works) {c : Call} (hc : c ∈ written log)
    (hk : c.kind ≠ .setWeighting) :
    ∃ a ∈ plan.actions, ∃ w, Expected s log a w ∧ c ∈ w.part c.kind := by
  have hpart : c ∈ (plan.calls s works).filter (·.kind == c.kind) :=
    List.mem_filter.mpr ⟨hwritten.subset hc, beq_self_eq_true _⟩
  rw [Plan.filter_calls hsorted plan hk, List.mem_flatMap] at hpart
  obtain ⟨w, hw, hmem⟩ := hpart
  obtain ⟨a, ha, hexpected⟩ := exists_of_mem_right hworks hw
  exact ⟨a, ha, w, hexpected, hmem⟩

theorem keepsTo_of_expected {desired : RecordSet} {plan : Plan}
    (hsorted : ∀ w ∈ works, w.Sorted)
    (hworks : List.Forall₂ (Expected desired log) plan.actions works)
    (hwritten : written log <+: plan.calls desired works) : KeepsTo desired plan log := by
  have hmade : ∀ {k}, k ≠ .setWeighting → made log k <+: works.flatMap (·.part k) := by
    intro k hk
    rw [← Plan.filter_calls hsorted plan hk]
    exact hwritten.filter _
  refine ⟨?_, ?_, ?_, ?_, ?_, ?_, ?_⟩
  · exact (hmade (by decide)).sublist.trans (additions_sublist hworks)
  · intro change hc
    obtain ⟨a, ha, w, hexpected, hmem⟩ :=
      exists_turn hsorted hworks hwritten hc (by simp [Call.kind])
    rcases hexpected.change (List.mem_of_mem_filter hmem) with
      ⟨i, id, weight, remark, status, e, rfl, hrest⟩ | ⟨i, e, r, rfl, hrest⟩
    · exact .inl ⟨i, id, weight, remark, status, e, ha, hrest⟩
    · exact .inr ⟨i, e, r, ha, hrest⟩
  · rw [← deletions_eq hworks]
    exact hmade (by decide)
  · intro id weight hc
    obtain ⟨a, ha, w, hexpected, hmem⟩ :=
      exists_turn hsorted hworks hwritten hc (by simp [Call.kind])
    rcases hexpected.weight hmem with ⟨i, checkCore, remark, status, rfl⟩ | ⟨i, e, rfl, hrest⟩
    · exact .inl ⟨i, checkCore, remark, status, ha⟩
    · exact .inr ⟨i, e, ha, hrest⟩
  · intro id remark hc
    obtain ⟨a, ha, w, hexpected, hmem⟩ :=
      exists_turn hsorted hworks hwritten hc (by simp [Call.kind])
    rcases hexpected.remark hmem with ⟨i, checkCore, weight, status, rfl⟩ | ⟨i, e, rfl, hrest⟩
    · exact .inl ⟨i, checkCore, weight, status, ha⟩
    · exact .inr ⟨i, e, ha, hrest⟩
  · intro id status hc
    obtain ⟨a, ha, w, hexpected, hmem⟩ :=
      exists_turn hsorted hworks hwritten hc (by simp [Call.kind])
    rcases hexpected.status hmem with ⟨i, checkCore, weight, remark, rfl⟩ | ⟨i, e, rfl, hrest⟩
    · exact .inl ⟨i, checkCore, weight, remark, ha⟩
    · exact .inr ⟨i, e, ha, hrest⟩
  · rw [← Plan.filter_calls_switch hsorted plan]
    exact hwritten.filter _

/-- Whatever the service answers, an update keeps to its plan as long as no record that is to be
kept is found gone. It is made up of its changes and a reading back, and where it gets as far as
that, the plan has been carried out, every action of it exactly once. -/
theorem update_keeps_to_plan {prior : TrackedSet} {desired : RecordSet} {plan : Plan}
    {result : Except LifecycleError TrackedSet}
    (hplan : Lifecycle.plan prior desired = .done plan)
    (hrun : (update prior desired).Transcript log result) (hfound : AllFound plan.actions log) :
    KeepsTo desired plan log ∧
    update prior desired = changes prior desired >>= (fun id => readBack id desired) ∧
    ∀ id log₁ log₂, log = log₁ ++ log₂ → (changes prior desired).Transcript log₁ (.ok id) →
      (readBack id desired).Transcript log₂ result → Completes desired plan log := by
  refine ⟨?_, update_eq_changes prior desired, ?_⟩
  · obtain ⟨works, hbegun, hwritten⟩ := written_of_update hplan hrun
    refine keepsTo_of_expected ?_ ?_ hwritten
    · intro w hw
      obtain ⟨a, -, h⟩ := exists_of_mem_right hbegun hw
      exact h.sorted
    · exact forall₂_of_mem hbegun fun a ha w h => h.expected_of_found hfound ha
  · rintro id log₁ log₂ rfl h₁ h₂
    obtain ⟨works, hturns, hwritten⟩ := (always_changes hplan).ended h₁
    have hread := (looks_readBack id desired).reads.written_eq_nil h₂
    have hall : written (log₁ ++ log₂) = plan.calls desired works := by
      rw [written_append, hread, List.append_nil, hwritten]
    have hplanned : List.Forall₂ (Planned desired (log₁ ++ log₂)) plan.actions works :=
      forall₂_of_mem hturns fun a ha w h =>
        (h.mono (List.subset_append_left _ _)).planned_of_found hfound ha
    have hsorted : ∀ w ∈ works, w.Sorted := by
      intro w hw
      obtain ⟨a, -, h⟩ := exists_of_mem_right hplanned hw
      exact h.sorted
    have hmade : ∀ {k}, k ≠ .setWeighting →
        made (log₁ ++ log₂) k = works.flatMap (·.part k) := by
      intro k hk
      rw [made, hall, Plan.filter_calls hsorted plan hk]
    refine ⟨works, hplanned, hmade (by decide), hmade (by decide), hmade (by decide), ?_, ?_⟩
    · rw [hmade (by decide), deletions_eq (hplanned.imp fun _ _ h => .inl h)]
    · rw [made, hall, Plan.filter_calls_switch hsorted plan]

end

/-! ### A stopped update and a whole one -/

/-- The second of two records is to get another value. -/
def revaluing : RecordSet := Zone.plain "www" ["192.0.2.1", "192.0.2.9"]

/-- An error that may meet any call. -/
def overQuota : ServiceError := ⟨"mock", .quotaExceeded none⟩

/-- The record is found and then cannot be changed. -/
def stoppedRevaluing : List Exchange :=
  [⟨.describeRecord "1001", .ok {
      id := "1001", domain := "example.com", host := "www", type := .a, value := "192.0.2.2",
      ttl := 600, line := RecordSet.defaultLine, weight := none, status := .enabled,
      remark := none, priority := none, locked := false }⟩,
    ⟨.changeRecord (.of revaluing ⟨"192.0.2.9", 600, 1, .enabled, none⟩ "1001"),
      .error overQuota⟩]

theorem stoppedRevaluing_transcript :
    (update Zone.pairRead revaluing).Transcript stoppedRevaluing
      (.error (.remote (.changeRecord "1001") overQuota)) :=
  .ask (.ask (.fail _))

/-- Only the first of two records is to stay, with weighting, a remark and another status. -/
def paring : RecordSet :=
  ⟨"example.com", "www", .a, RecordSet.defaultLine, none, .enabled,
    [⟨"192.0.2.1", 600, 10, .disabled, some "spare"⟩]⟩

/-- All that is said in an update of the zone of the two records to this. -/
def wholeParing : List Exchange := (update Zone.pairRead paring).log Zone.remote Zone.pair

/-- One update is stopped at its only change. The other one does all that it has planned, a weight,
a remark, a status, a deletion and a switch, and then reads back. -/
theorem stopped_and_whole_keep_to_plan :
    (∃ plan, Lifecycle.plan Zone.pairRead revaluing = .done plan ∧
      plan.actions = [.reconcile 1 "1001" true none none none] ∧
      KeepsTo revaluing plan stoppedRevaluing) ∧
    ∃ plan, Lifecycle.plan Zone.pairRead paring = .done plan ∧
      plan.actions = [.reconcile 0 "1000" false (some 10) (some "spare") (some .disabled),
        .delete 1 "1001"] ∧
      plan.weighting = some .enabled ∧
      written wholeParing = [.setRemark "1000" "spare", .setStatus "1000" .disabled,
        .deleteRecord "1001", switchCall paring .enabled, .setWeight "1000" 10] ∧
      KeepsTo paring plan wholeParing ∧ Completes paring plan wholeParing := by
  constructor
  · refine ⟨⟨[.reconcile 1 "1001" true none none none], none⟩, rfl, rfl, ?_⟩
    exact (update_keeps_to_plan rfl stoppedRevaluing_transcript (allFound_of_all rfl _)).1
  · refine ⟨⟨[.reconcile 0 "1000" false (some 10) (some "spare") (some .disabled),
      .delete 1 "1001"], some .enabled⟩, rfl, rfl, rfl, rfl, ?_⟩
    have hrun := Dialogue.transcript_log Zone.remote (update Zone.pairRead paring) Zone.pair
    have hdone : ((update Zone.pairRead paring).run Zone.remote Zone.pair).1 =
        .ok ⟨⟨["1000"]⟩, paring⟩ := by rfl
    rw [hdone] at hrun
    have hfound : wholeParing.all (!·.missesRecord) = true := by rfl
    obtain ⟨hkeeps, hlink, hcompletes⟩ := update_keeps_to_plan rfl hrun (allFound_of_all hfound _)
    rw [hlink] at hrun
    rcases Dialogue.transcript_bind_iff.mp hrun with ⟨id, log₁, log₂, h₁, h₂, hlog⟩ | ⟨e, -, he⟩
    · exact ⟨hkeeps, hcompletes id log₁ log₂ hlog h₁ h₂⟩
    · cases he

end WeightedDns
