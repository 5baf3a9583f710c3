import WeightedDns.Proofs.Create.Created
import WeightedDns.Proofs.Update.Written

/-!
# The order of calls

A create takes the turns of a plan that creates all entries, but in another order: the cores of all
records first, then the switch, then all weights, then all remarks and status
(`written_of_create`). Both operations switch weighting at most once, set no weight before that, and
set weights only where weighting is to be on (`calls_in_order`).
-/

namespace WeightedDns

open Lifecycle

/-! ## What a create writes -/

/-- All writing calls of a create. -/
def createCalls (s : RecordSet) (works : List Work) : List Call :=
  works.flatMap (·.core) ++ ((if s.weighting.isOn then [switchCall s .enabled] else []) ++
    (works.flatMap (·.weight) ++ works.flatMap (·.extras)))

/-- Work on the record that has come to an entry. -/
def Places (s : RecordSet) (x : (String × Extras) × Entry) (w : Work) : Prop :=
  ∃ core, w = .placing s x.2 core x.1.1 x.1.2

section

variable {s : RecordSet} {known : List StoredRecord} {log : List Exchange}

/-- The records of entries come one after another, and an error stops that at one of the calls. -/
theorem always_ensureAll {i : Nat} {rest : List Entry} (hrest : s.entries.drop i = rest)
    (hknown : ∀ r ∈ known, Listed s log r) :
    (ensureAll s known rest).Always
      (fun found log' => found.length = rest.length ∧ ∃ works,
        List.Forall₂ (Turn s log') (Plan.createsFrom i rest) works ∧
        List.Forall₂ (Places s) (found.zip rest) works ∧
        Extends log (works.flatMap (·.core)) log')
      (fun _ log' => ∃ works part, List.Forall₂ (Begun s log') (Plan.createsFrom i rest) works ∧
        part <+: works.flatMap (·.core) ∧ Extends log part log') log := by
  -- by induction on the entries left, of which `i` is the index of the first
  induction rest generalizing i log with
  | nil => exact ⟨rfl, [], .nil, .nil, .refl log⟩
  | cons e rest ih =>
    obtain ⟨he, hnext⟩ := of_drop_eq_cons hrest
    rw [ensureAll, Dialogue.always_bind]
    refine (always_ensure he hknown).mono ?_ ?_
    · rintro first log₁ ⟨core, hcomes, h₁⟩
      rw [Dialogue.always_bind]
      refine (ih hnext fun r hr => (hknown r hr).mono h₁.before).mono ?_ ?_
      · rintro others log' ⟨hsize, works, hturns, hplaces, h⟩
        refine ⟨congrArg (· + 1) hsize, .placing s e core first.1 first.2 :: works, ?_, ?_, ?_⟩
        · exact .cons (Turn.mono (.planned (hcomes.planned he)) h.before) hturns
        · exact .cons ⟨core, rfl⟩ hplaces
        · exact h₁.trans h
      · rintro _ log' ⟨works, part, hbegun, hpart, h⟩
        refine ⟨.placing s e core first.1 first.2 :: works, core ++ part, ?_, ?_, h₁.trans h⟩
        · exact .cons (.turn (Turn.mono (.planned (hcomes.planned he)) h.before)) hbegun
        · exact (List.prefix_append_right_inj core).mpr hpart
    · rintro _ log' ⟨w, hbegun, h⟩
      obtain ⟨works, hworks⟩ :=
        exists_begun_all (fun a ha => (Plan.sound_createsFrom hnext a ha).inRange) log'
      exact ⟨w :: works, w.core, .cons hbegun hworks, List.prefix_append _ _, h⟩

theorem issues_each {α : Type} {step : α → Operation Unit} {calls : α → List Call}
    (hstep : ∀ x, (step x).Issues (calls x) fun _ => True) (items : List α) :
    (each step items).Issues (items.flatMap calls) fun _ => True := by
  induction items with
  | nil => exact Dialogue.issues_done trivial
  | cons x rest ih => exact (hstep x).bind fun _ _ => ih

/-- What the work on placed records has in common, taken from the records. -/
theorem flatMap_of_places {items : List ((String × Extras) × Entry)} {works : List Work}
    (h : List.Forall₂ (Places s) items works) {f : Work → List Call}
    {g : (String × Extras) × Entry → List Call}
    (hsame : ∀ x core, f (.placing s x.2 core x.1.1 x.1.2) = g x) :
    works.flatMap f = items.flatMap g := by
  induction h with
  | nil => rfl
  | cons hx _ ih =>
    obtain ⟨core, rfl⟩ := hx
    rw [List.flatMap_cons, List.flatMap_cons, ih, hsame]

/-- Where weighting is to be on, it is switched on and all weights are set. -/
theorem issues_weighGroup {found : List (String × Extras)} {works : List Work}
    (hplaces : List.Forall₂ (Places s) (found.zip s.entries) works) :
    (weighGroup s (found.map (·.1))).Issues
      ((if s.weighting.isOn then [switchCall s .enabled] else []) ++ works.flatMap (·.weight))
      fun _ => True := by
  have hzip : (found.map (·.1)).zip s.entries =
      (found.zip s.entries).map fun x => (x.1.1, x.2) := List.zip_map_left
  unfold weighGroup
  cases hon : s.weighting.isOn with
  | true =>
    -- where weighting is on, an entry has its own weight from the start
    have hweights : works.flatMap (·.weight) = ((found.map (·.1)).zip s.entries).flatMap fun x =>
        ((ownWeight x.2).map (.setWeight x.1)).toList := by
      rw [hzip, List.flatMap_map]
      refine flatMap_of_places hplaces ?_
      intro x core
      simp only [Work.placing, Work.on, startingWeight, ownWeight, hon, Bool.true_and]
    have hswitch : (setWeighting s .enabled).Issues [switchCall s .enabled] fun _ => True :=
      issues_setWeighting s .enabled
    rw [hweights, weighAll_eq]
    exact hswitch.bind fun _ _ => issues_each
      (fun x => issues_whenSome fun _ => issues_attempt rfl _) _
  | false =>
    have hnone : works.flatMap (·.weight) = [] := by
      rw [flatMap_of_places hplaces (g := fun _ => [])]
      · exact List.flatMap_eq_nil_iff.mpr fun _ _ => rfl
      · intro x core
        simp [Work.placing, Work.on, startingWeight, hon]
    rw [hnone]
    exact Dialogue.issues_done trivial

theorem issues_applyAllExtras {found : List (String × Extras)} {works : List Work}
    (hplaces : List.Forall₂ (Places s) (found.zip s.entries) works) :
    (applyAllExtras (found.zip s.entries)).Issues (works.flatMap (·.extras)) fun _ => True := by
  rw [flatMap_of_places hplaces (g := fun x => (Work.placing s x.2 [] x.1.1 x.1.2).extras)
    fun _ _ => rfl, applyAllExtras_eq]
  exact issues_each (fun x => issues_dress _ _ _) _

/-- What follows once all entries have records. -/
theorem issues_finish {found : List (String × Extras)} {works : List Work}
    (hplaces : List.Forall₂ (Places s) (found.zip s.entries) works) :
    (finish s found).Issues ((if s.weighting.isOn then [switchCall s .enabled] else []) ++
      (works.flatMap (·.weight) ++ works.flatMap (·.extras))) fun _ => True := by
  have hlast : (do
      let id ← resourceId (found.map (·.1))
      readBack id s : Operation TrackedSet).Issues [] fun _ => True :=
    ((looks_resourceId _).bind fun id => looks_readBack id s).reads.issues
  have h := (issues_weighGroup hplaces).bind fun _ _ =>
    (issues_applyAllExtras hplaces).bind fun _ _ => hlast
  rwa [List.append_nil, List.append_assoc] at h

theorem only_lookUp {preflight : Bool} {p : Call → Prop}
    (h : preflight = true → p (.describeDomain s.domain)) : (lookUp preflight s).Only p := by
  unfold lookUp
  split
  · rename_i hpreflight
    exact (only_attempt (h hpreflight) _).bind fun _ => trivial
  · trivial

/-- Whatever the service answers, a create makes the calls for all its entries, and an error stops
it at one of them. -/
theorem written_of_create {preflight : Bool} {result : Except LifecycleError TrackedSet}
    (hfault : s.fault? = none) (h : (create preflight s).Transcript log result) :
    ∃ works, List.Forall₂ (Begun s log) (Plan.createsFrom 0 s.entries) works ∧
      written log <+: createCalls s works := by
  have hstart : ∀ log', ∃ works, List.Forall₂ (Begun s log') (Plan.createsFrom 0 s.entries) works :=
    exists_begun_all fun a ha => (Plan.sound_createsFrom rfl a ha).inRange
  have hlookUp : (lookUp preflight s).Reads := only_lookUp fun _ => rfl
  have hcreate : (create preflight s).Always
      (fun _ log => ∃ works, List.Forall₂ (Begun s log) (Plan.createsFrom 0 s.entries) works ∧
        written log <+: createCalls s works)
      (fun _ log => ∃ works, List.Forall₂ (Begun s log) (Plan.createsFrom 0 s.entries) works ∧
        written log <+: createCalls s works) [] := by
    -- nothing has been written as long as no entry has had its turn
    have hnothing : ∀ log', Extends [] [] log' → ∃ works,
        List.Forall₂ (Begun s log') (Plan.createsFrom 0 s.entries) works ∧
          written log' <+: createCalls s works := by
      intro log' h
      obtain ⟨works, hworks⟩ := hstart log'
      refine ⟨works, hworks, ?_⟩
      rw [h.written]
      exact List.nil_prefix
    rw [create_eq hfault, Dialogue.always_bind]
    refine (hlookUp.issues []).mono ?_ ?_
    · rintro _ log₁ ⟨-, h₁⟩
      rw [Dialogue.always_bind]
      refine (always_listed s log₁).mono ?_ ?_
      · rintro known log₂ ⟨h₂, hknown⟩
        rw [Dialogue.always_bind]
        refine (always_ensureAll (i := 0) List.drop_zero hknown).mono ?_ ?_
        · rintro found log₃ ⟨-, works, hturns, hplaces, h₃⟩
          have hcores : Extends [] (works.flatMap (·.core)) log₃ := (h₁.trans h₂).trans h₃
          refine (issues_finish hplaces log₃).mono ?_ ?_
          · rintro _ log' ⟨-, h'⟩
            refine ⟨works, hturns.imp fun _ _ h => .turn (h.mono h'.before), ?_⟩
            rw [(hcores.trans h').written]
            exact List.prefix_refl _
          · rintro _ log' ⟨part, hpart, h'⟩
            refine ⟨works, hturns.imp fun _ _ h => .turn (h.mono h'.before), ?_⟩
            rw [(hcores.trans h').written]
            exact (List.prefix_append_right_inj (works.flatMap (·.core))).mpr hpart
        · rintro _ log' ⟨works, part, hbegun, hpart, h'⟩
          refine ⟨works, hbegun, ?_⟩
          rw [((h₁.trans h₂).trans h').written]
          exact hpart.trans (List.prefix_append _ _)
      · intro _ log' h₂
        exact hnothing log' (h₁.trans h₂)
    · rintro _ log' ⟨part, hpart, h'⟩
      rw [List.prefix_nil.mp hpart] at h'
      exact hnothing log' h'
  have hend := hcreate.ended h
  cases result <;> exact hend

end

/-! ## Order -/

/-- No call of the second kind comes after one of the first. -/
def NoneAfter (first second : ActionKind) (calls : List Call) : Prop :=
  calls.Pairwise fun a b => ¬ (a.kind = first ∧ b.kind = second)

/-- The calls of a log keep to what is desired of weighting: it is switched at most once, no weight
is set before, and weights are set only where weighting is to be on, from one to a hundred. -/
structure Weighs (s : RecordSet) (log : List Exchange) : Prop where
  switched : made log .setWeighting <+: [switchCall s s.weighting]
  weights_after : NoneAfter .setWeight .setWeighting (written log)
  weights_bounded : ∀ id weight, .setWeight id weight ∈ written log →
    s.weighting = .enabled ∧ 1 ≤ weight ∧ weight ≤ 100

section

variable {s : RecordSet} {log : List Exchange} {phase : ActionKind → Nat} {k k' : ActionKind}
  {l l' : List Call}
  {works : List Work} {w : Work} {a : Action} {c : Call} {deferred : Bool}

/-- The calls come in the order of phases. -/
def InPhases (phase : ActionKind → Nat) (calls : List Call) : Prop :=
  calls.Pairwise fun a b => phase a.kind ≤ phase b.kind

theorem inPhases_of_eq {n : Nat} (h : ∀ c ∈ l, phase c.kind = n) : InPhases phase l := by
  refine List.pairwise_iff_forall_sublist.mpr ?_
  intro a b hsub
  have ha := h a (hsub.subset List.mem_cons_self)
  have hb := h b (hsub.subset (List.mem_cons_of_mem _ List.mem_cons_self))
  omega

/-- Calls of one phase go in front of calls of later phases. -/
theorem InPhases.append {n : Nat} (h' : InPhases phase l') (hfirst : ∀ c ∈ l, phase c.kind = n)
    (hlater : ∀ c ∈ l', n ≤ phase c.kind) : InPhases phase (l ++ l') := by
  refine List.pairwise_append.mpr ⟨inPhases_of_eq hfirst, h', ?_⟩
  intro a ha b hb
  rw [hfirst a ha]
  exact hlater b hb

/-- What is of an earlier phase comes after nothing of a later one. -/
theorem InPhases.noneAfter (h : InPhases phase l') (hpart : l <+: l')
    (hphase : phase k' < phase k) : NoneAfter k k' l := by
  refine List.Pairwise.imp ?_ (h.sublist hpart.sublist)
  rintro a b hle ⟨rfl, rfl⟩
  omega

theorem filter_of_phase_ne {n : Nat} (h : ∀ c ∈ l, phase c.kind = n) (hne : phase k ≠ n) :
    l.filter (·.kind == k) = [] := by
  refine List.filter_eq_nil_iff.mpr ?_
  intro c hc hkind
  rw [← h c hc, beq_iff_eq.mp hkind] at hne
  exact hne rfl

/-- Without a call of a kind there is none after it and none before it. -/
theorem noneAfter_of_filter_nil (h : l.filter (·.kind == k) = []) :
    NoneAfter k k' l ∧ NoneAfter k' k l := by
  have hnone : ∀ c ∈ l, c.kind ≠ k := by
    intro c hc
    simpa using List.filter_eq_nil_iff.mp h c hc
  constructor <;> refine List.pairwise_iff_forall_sublist.mpr ?_ <;> rintro a b hsub ⟨ha, hb⟩
  · exact hnone a (hsub.subset List.mem_cons_self) ha
  · exact hnone b (hsub.subset (List.mem_cons_of_mem _ List.mem_cons_self)) hb

/-! ### Work -/

theorem Work.Sorted.kind_later (h : w.Sorted) (hc : c ∈ w.later deferred) :
    c.kind = .setWeight := by
  unfold later at hc
  split at hc
  · exact h.weight c hc
  · cases hc

theorem Begun.all_sorted {actions : List Action}
    (h : List.Forall₂ (Begun s log) actions works) : ∀ w ∈ works, w.Sorted := by
  intro w hw
  obtain ⟨a, -, hbegun⟩ := exists_of_mem_right h hw
  exact hbegun.sorted

/-- The weight that is set for a record that has come to an entry. -/
theorem eq_of_mem_placing {e : Entry} {core : List Call} {id : String} {carried : Extras}
    (hc : c ∈ (Work.placing s e core id carried).weight) :
    s.weighting.isOn = true ∧ e.weight ≠ 0 ∧ c = .setWeight id e.weight := by
  obtain ⟨weight, hstart, rfl⟩ := mem_map_toList hc
  obtain ⟨rfl, hon, hne⟩ := startingWeight_eq_some hstart
  exact ⟨hon, hne, rfl⟩

/-- A weight that is set is that of an entry, not zero, and weighting is to be on. -/
theorem Begun.weight (h : Begun s log a w) (hsound : a.Sound s) (hc : c ∈ w.weight) :
    s.weighting.isOn = true ∧ ∃ e ∈ s.entries, e.weight ≠ 0 ∧ ∃ id, c = .setWeight id e.weight := by
  cases h with
  | turn h =>
    cases h with
    | planned h =>
      cases h with
      | kept =>
        obtain ⟨e, he, hplanned⟩ := hsound
        obtain ⟨weight, rfl, rfl⟩ := mem_map_toList hc
        obtain ⟨rfl, hon, hne⟩ := hplanned weight rfl
        exact ⟨hon, e, List.mem_of_getElem? he, hne, _, rfl⟩
      | added he =>
        obtain ⟨hon, hne, rfl⟩ := eq_of_mem_placing hc
        exact ⟨hon, _, List.mem_of_getElem? he, hne, _, rfl⟩
      | adopted he =>
        obtain ⟨hon, hne, rfl⟩ := eq_of_mem_placing hc
        exact ⟨hon, _, List.mem_of_getElem? he, hne, _, rfl⟩
      | deleted => cases hc
    | replaced he =>
      obtain ⟨hon, hne, rfl⟩ := eq_of_mem_placing hc
      exact ⟨hon, _, List.mem_of_getElem? he, hne, _, rfl⟩
  | creating => cases hc
  | replacing => cases hc

theorem weight_bounded (valid : s.Admissible) {actions : List Action}
    (hsound : ∀ a ∈ actions, a.Sound s) (hbegun : List.Forall₂ (Begun s log) actions works)
    {id : String} {weight : UInt32} (hc : .setWeight id weight ∈ works.flatMap (·.weight)) :
    s.weighting = .enabled ∧ 1 ≤ weight ∧ weight ≤ 100 := by
  obtain ⟨w, hw, hc⟩ := List.mem_flatMap.mp hc
  obtain ⟨a, ha, h⟩ := exists_of_mem_right hbegun hw
  obtain ⟨hon, e, he, hne, id', hsame⟩ := h.weight (hsound a ha) hc
  obtain ⟨-, rfl⟩ := Call.setWeight.inj hsame
  refine ⟨?_, ?_, valid.weight_bounded e he⟩
  · cases hweighting : s.weighting with
    | enabled => rfl
    | disabled =>
      rw [hweighting] at hon
      cases hon
  · have hpos : e.weight.toNat ≠ 0 := fun hzero => hne (UInt32.toNat_inj.mp hzero)
    rw [UInt32.le_iff_toNat_le]
    have hone : (1 : UInt32).toNat = 1 := rfl
    omega

/-! ### Updates -/

/-- The phases of an update that switches weighting. -/
def updatePhase : ActionKind → Nat
  | .setWeighting => 1
  | .setWeight => 2
  | _ => 0

/-- No weight is set in the turns of an update that switches weighting: they wait where it goes on,
and there are none where it goes off. -/
theorem Plan.turns_before_switch {plan : Plan} {old : RecordSet}
    (hplan : plan.weighting = weightingChange old s) (hswitches : plan.weighting ≠ none)
    (hsound : ∀ a ∈ plan.actions, a.Sound s)
    (hbegun : List.Forall₂ (Begun s log) plan.actions works) :
    ∀ c ∈ works.flatMap (·.now plan.defersWeights), updatePhase c.kind = 0 := by
  intro c hc
  obtain ⟨w, hw, hmem⟩ := List.mem_flatMap.mp hc
  have hsorted := Begun.all_sorted hbegun w hw
  have hpart : c ∈ (w.now plan.defersWeights).filter (·.kind == c.kind) :=
    List.mem_filter.mpr ⟨hmem, beq_self_eq_true _⟩
  rw [hsorted.filter_now] at hpart
  split at hpart
  · cases hpart
  · rename_i hwaits
    have hweight : c.kind ≠ .setWeight := by
      intro hkind
      rw [hkind] at hpart hwaits
      obtain ⟨a, ha, h⟩ := exists_of_mem_right hbegun hw
      obtain ⟨hon, -⟩ := h.weight (hsound a ha) hpart
      rcases Zone.weightingChange_cases old s with hsome | ⟨hnone, -⟩
      · refine hwaits ⟨?_, rfl⟩
        rw [defersWeights, hplan, hsome]
        cases hweighting : s.weighting with
        | enabled => rfl
        | disabled =>
          rw [hweighting] at hon
          cases hon
      · rw [hplan] at hswitches
        exact hswitches hnone
    have hswitch : c.kind ≠ .setWeighting := by
      intro hkind
      rw [hkind, hsorted.part_setWeighting] at hpart
      cases hpart
    cases hkind : c.kind <;> first | rfl | contradiction

/-- An update that switches weighting makes its calls in phases. -/
theorem Plan.calls_inPhases {plan : Plan} {old : RecordSet}
    (hplan : plan.weighting = weightingChange old s) (hswitches : plan.weighting ≠ none)
    (hsound : ∀ a ∈ plan.actions, a.Sound s)
    (hbegun : List.Forall₂ (Begun s log) plan.actions works) :
    InPhases updatePhase (plan.calls s works) := by
  obtain ⟨position, hposition⟩ := Option.ne_none_iff_exists'.mp hswitches
  have hturns := turns_before_switch hplan hswitches hsound hbegun
  have hlater : ∀ c ∈ works.flatMap (·.later plan.defersWeights), updatePhase c.kind = 2 := by
    intro c hc
    obtain ⟨w, hw, hmem⟩ := List.mem_flatMap.mp hc
    rw [(Begun.all_sorted hbegun w hw).kind_later hmem]
    rfl
  rw [calls, hposition]
  refine InPhases.append (n := 0) ?_ hturns fun _ _ => Nat.zero_le _
  refine InPhases.append (n := 1) (inPhases_of_eq hlater) ?_ ?_
  · intro c hc
    rw [List.mem_singleton.mp hc]
    rfl
  · intro c hc
    rw [hlater c hc]
    decide

/-- Weighting is switched as planned, and that is as desired. -/
theorem Plan.switch_prefix (old desired : RecordSet) :
    ((weightingChange old desired).map (switchCall desired)).toList <+:
      [switchCall desired desired.weighting] := by
  rcases Zone.weightingChange_cases old desired with hsome | ⟨hnone, -⟩
  · rw [hsome]
    exact List.prefix_refl _
  · rw [hnone]
    exact List.nil_prefix

/-- A log without writing calls is in order. -/
theorem Weighs.nil (h : written log = []) : Weighs s log := by
  refine ⟨?_, ?_, ?_⟩
  · rw [made, h]
    exact List.nil_prefix
  · rw [h]
    exact List.Pairwise.nil
  · intro id weight hc
    rw [h] at hc
    cases hc

theorem weighs_update {prior : TrackedSet} {desired : RecordSet}
    {result : Except LifecycleError TrackedSet}
    (h : (update prior desired).Transcript log result) :
    Weighs desired log ∧
      ∀ k ∈ [.addRecord, .changeRecord, .deleteRecord, .setRemark, .setStatus],
        NoneAfter .setWeighting k (written log) := by
  cases hplan : Lifecycle.plan prior desired with
  | ask c next => exact absurd hplan (plan_ne_ask prior desired c next)
  | fail e =>
    have hnil : written log = [] := by
      rw [update_eq_changes, changes, hplan] at h
      cases h
      rfl
    refine ⟨.nil hnil, ?_⟩
    intro k _
    rw [hnil]
    exact List.Pairwise.nil
  | done plan =>
    obtain ⟨works, hbegun, hwritten⟩ := written_of_update hplan h
    obtain ⟨hfault, hplan'⟩ := of_plan_eq_done hplan
    have valid := RecordSet.fault?_eq_none_iff.mp hfault
    have hsound := Plan.sound hplan
    have hsorted := Begun.all_sorted hbegun
    have hweighting : plan.weighting = Plan.weightingChange prior.config desired := by rw [hplan']
    have hmade : made log .setWeighting <+: (plan.weighting.map (switchCall desired)).toList := by
      rw [← Plan.filter_calls_switch hsorted plan]
      exact hwritten.filter _
    have horder : NoneAfter .setWeight .setWeighting (written log) ∧
        ∀ k ∈ [.addRecord, .changeRecord, .deleteRecord, .setRemark, .setStatus],
          NoneAfter .setWeighting k (written log) := by
      cases hposition : plan.weighting with
      | none =>
        rw [hposition] at hmade
        have hnone := List.prefix_nil.mp hmade
        exact ⟨(noneAfter_of_filter_nil hnone).2, fun k _ => (noneAfter_of_filter_nil hnone).1⟩
      | some position =>
        have hphases := Plan.calls_inPhases hweighting (by rw [hposition]; simp) hsound hbegun
        refine ⟨hphases.noneAfter hwritten (by decide), ?_⟩
        intro k hk
        refine hphases.noneAfter hwritten ?_
        revert k
        decide
    refine ⟨⟨hmade.trans ?_, horder.1, ?_⟩, horder.2⟩
    · rw [hweighting]
      exact Plan.switch_prefix prior.config desired
    · intro id weight hc
      have hmem := (hwritten.filter (·.kind == .setWeight)).subset
        (List.mem_filter.mpr ⟨hc, rfl⟩)
      rw [Plan.filter_calls hsorted plan (by decide)] at hmem
      exact weight_bounded valid hsound hbegun hmem

/-! ### Creates -/

/-- The phases of a create. -/
def createPhase : ActionKind → Nat
  | .setWeighting => 1
  | .setWeight => 2
  | .setRemark => 3
  | .setStatus => 3
  | _ => 0

section

variable (hsorted : ∀ w ∈ works, w.Sorted)
include hsorted

theorem createPhase_core : ∀ c ∈ works.flatMap (·.core), createPhase c.kind = 0 := by
  intro c hc
  obtain ⟨w, hw, hmem⟩ := List.mem_flatMap.mp hc
  rcases (hsorted w hw).core c hmem with h | h | h <;> rw [h] <;> rfl

omit hsorted in
theorem createPhase_switch : ∀ c ∈ (if s.weighting.isOn then [switchCall s .enabled] else []),
    createPhase c.kind = 1 := by
  intro c hc
  split at hc
  · rw [List.mem_singleton.mp hc]
    rfl
  · cases hc

theorem createPhase_weight : ∀ c ∈ works.flatMap (·.weight), createPhase c.kind = 2 := by
  intro c hc
  obtain ⟨w, hw, hmem⟩ := List.mem_flatMap.mp hc
  rw [(hsorted w hw).weight c hmem]
  rfl

theorem createPhase_extras : ∀ c ∈ works.flatMap (·.extras), createPhase c.kind = 3 := by
  intro c hc
  obtain ⟨w, hw, hmem⟩ := List.mem_flatMap.mp hc
  rcases List.mem_append.mp hmem with hmem | hmem
  · rw [(hsorted w hw).remark c hmem]
    rfl
  · rw [(hsorted w hw).status c hmem]
    rfl

/-- A create makes its calls in phases. -/
theorem createCalls_inPhases : InPhases createPhase (createCalls s works) := by
  have hextras := createPhase_extras hsorted
  refine InPhases.append (n := 0) ?_ (createPhase_core hsorted) fun _ _ => Nat.zero_le _
  refine InPhases.append (n := 1) ?_ createPhase_switch ?_
  · refine InPhases.append (n := 2) (inPhases_of_eq hextras) (createPhase_weight hsorted) ?_
    intro c hc
    rw [hextras c hc]
    decide
  · intro c hc
    rcases List.mem_append.mp hc with hc | hc
    · rw [createPhase_weight hsorted c hc]
      decide
    · rw [hextras c hc]
      decide

/-- Of a create's calls, those that switch weighting are the one to switch it on. -/
theorem filter_createCalls_switch :
    (createCalls s works).filter (·.kind == .setWeighting) <+: [switchCall s s.weighting] := by
  rw [createCalls, List.filter_append, List.filter_append, List.filter_append,
    filter_of_phase_ne (createPhase_core hsorted) (by decide),
    filter_of_phase_ne (createPhase_weight hsorted) (by decide),
    filter_of_phase_ne (createPhase_extras hsorted) (by decide)]
  cases s.weighting with
  | enabled => exact List.prefix_refl _
  | disabled => exact List.nil_prefix

/-- Of a create's calls, those that set weights are in its work on weights. -/
theorem filter_createCalls_weight :
    (createCalls s works).filter (·.kind == .setWeight) =
      (works.flatMap (·.weight)).filter (·.kind == .setWeight) := by
  rw [createCalls, List.filter_append, List.filter_append, List.filter_append,
    filter_of_phase_ne (createPhase_core hsorted) (by decide),
    filter_of_phase_ne createPhase_switch (by decide),
    filter_of_phase_ne (createPhase_extras hsorted) (by decide), List.nil_append,
    List.nil_append, List.append_nil]

end

theorem weighs_create {preflight : Bool} {result : Except LifecycleError TrackedSet}
    (h : (create preflight s).Transcript log result) :
    Weighs s log ∧
      (∀ k ∈ [.addRecord, .changeRecord], NoneAfter .setWeighting k (written log)) ∧
      ∀ k ∈ [.setRemark, .setStatus], NoneAfter k .setWeight (written log) := by
  cases hfault : s.fault? with
  | some fault =>
    have hnil : written log = [] := by
      unfold create accept at h
      rw [hfault] at h
      cases h
      rfl
    refine ⟨.nil hnil, ?_, ?_⟩ <;> intro k _ <;> rw [hnil] <;> exact List.Pairwise.nil
  | none =>
    obtain ⟨works, hbegun, hwritten⟩ := written_of_create hfault h
    have valid := RecordSet.fault?_eq_none_iff.mp hfault
    have hsound : ∀ a ∈ Plan.createsFrom 0 s.entries, a.Sound s := Plan.sound_createsFrom rfl
    have hsorted := Begun.all_sorted hbegun
    have hphases : InPhases createPhase (createCalls s works) := createCalls_inPhases hsorted
    refine ⟨⟨?_, hphases.noneAfter hwritten (by decide), ?_⟩, ?_, ?_⟩
    · exact (hwritten.filter _).trans (filter_createCalls_switch hsorted)
    · intro id weight hc
      have hmem := (hwritten.filter (·.kind == .setWeight)).subset
        (List.mem_filter.mpr ⟨hc, rfl⟩)
      rw [filter_createCalls_weight hsorted] at hmem
      exact weight_bounded valid hsound hbegun (List.mem_of_mem_filter hmem)
    · intro k hk
      refine hphases.noneAfter hwritten ?_
      revert k
      decide
    · intro k hk
      refine hphases.noneAfter hwritten ?_
      revert k
      decide

/-- Whatever the service answers, and wherever it stops them, both operations make their calls in
order. An update switches weighting after all else but weights, a create after all records exist,
and it leaves remarks and status to the end. -/
theorem calls_in_order :
    (∀ (prior : TrackedSet) (desired : RecordSet) (log : List Exchange)
      (result : Except LifecycleError TrackedSet), (update prior desired).Transcript log result →
      Weighs desired log ∧
      ∀ k ∈ [.addRecord, .changeRecord, .deleteRecord, .setRemark, .setStatus],
        NoneAfter .setWeighting k (written log)) ∧
    (∀ (preflight : Bool) (s : RecordSet) (log : List Exchange)
      (result : Except LifecycleError TrackedSet), (create preflight s).Transcript log result →
      Weighs s log ∧
      (∀ k ∈ [.addRecord, .changeRecord], NoneAfter .setWeighting k (written log)) ∧
      ∀ k ∈ [.setRemark, .setStatus], NoneAfter k .setWeight (written log)) :=
  ⟨fun _ _ _ _ => weighs_update, fun _ _ _ _ => weighs_create⟩

/-- A weighted entry of a host. -/
def weightedEntry : Entry := ⟨"192.0.2.1", 600, 10, .disabled, none⟩

/-- The only entry of a set with weighting. -/
def weightedSet : RecordSet :=
  ⟨"example.com", "www", .a, RecordSet.defaultLine, none, .enabled, [weightedEntry]⟩

/-- The record is added, weighting is switched on, and then the weight is refused. -/
def refusedWeight : List Exchange :=
  [⟨.listRecords "example.com" ⟨some "www", some .a, none⟩ Remote.firstPage,
      .ok (.ofItems [] Remote.firstPage 0)⟩,
    ⟨.addRecord (.of weightedSet weightedEntry), .ok "1000"⟩,
    ⟨switchCall weightedSet .enabled, .ok ()⟩,
    ⟨.setWeight "1000" 10, .error ⟨"mock", .quotaExceeded none⟩⟩]

theorem refusedWeight_in_order :
    (create false weightedSet).Transcript refusedWeight
        (.error (.remote (.setWeight "1000") ⟨"mock", .quotaExceeded none⟩)) ∧
      written refusedWeight = [.addRecord (.of weightedSet weightedEntry),
        switchCall weightedSet .enabled, .setWeight "1000" 10] ∧
      Weighs weightedSet refusedWeight := by
  have hrun : (create false weightedSet).Transcript refusedWeight
      (.error (.remote (.setWeight "1000") ⟨"mock", .quotaExceeded none⟩)) :=
    .ask (.ask (.ask (.ask (.fail _))))
  exact ⟨hrun, rfl, (calls_in_order.2 false weightedSet refusedWeight _ hrun).1⟩

end

end WeightedDns
