import WeightedDns.Proofs.Update.Loop
import WeightedDns.Proofs.Update.Turns

/-!
# What an update writes

The writing calls of an update are those of its turns, the switch, and the weights that have waited
for it (`Plan.calls`). Whatever the service answers, an update makes them in this order, and an
error stops it at one of them (`always_changes`, `written_of_update`). The calls of one kind are
found in the work of the turns (`Plan.filter_calls`).
-/

namespace WeightedDns

open Lifecycle

namespace Lifecycle

/-- What an update does before it reads the set back; the ID is the one that it then reads. -/
def changes (prior : TrackedSet) (desired : RecordSet) : Operation ResourceId := do
  let plan ← plan prior desired
  if plan.isEmpty then pure prior.id
  else
    let p ← runActions desired plan.defersWeights ⟨prior.id.ids, [], none⟩ plan.actions
    whenSome plan.weighting (setWeighting desired)
    weighPending p.pending
    resourceId (p.ids.take desired.entries.length)

theorem update_eq_changes (prior : TrackedSet) (desired : RecordSet) :
    update prior desired = changes prior desired >>= fun id => readBack id desired := by
  unfold update changes
  rw [Dialogue.bind_assoc]
  congr 1
  funext plan
  split
  · rfl
  · simp only [Dialogue.bind_assoc]

end Lifecycle

/-- Whether a call finds records or weighted hosts. -/
def Call.looks : Call → Bool
  | .listRecords _ _ _ | .describeRecord _ | .listWeightedHosts _ _ _ => true
  | _ => false

/-- The call that switches the weighting of a set. -/
def switchCall (s : RecordSet) (position : Switch) : Call :=
  .setWeighting ⟨s.domain, s.host, some s.type, some s.line, position.isOn⟩

/-- All writing calls of an update: those of the turns, the switch, and what has waited for it. -/
def Plan.calls (s : RecordSet) (plan : Plan) (works : List Work) : List Call :=
  works.flatMap (·.now plan.defersWeights) ++
    ((plan.weighting.map (switchCall s)).toList ++ works.flatMap (·.later plan.defersWeights))

/-- The calls of one kind in a log. -/
def made (log : List Exchange) (k : ActionKind) : List Call :=
  (written log).filter (·.kind == k)

/-! ## Reading back -/

/-- The dialogue makes no calls but those that find records and weighted hosts. -/
abbrev Dialogue.Looks {ε α : Type} (d : Dialogue ε α) : Prop := d.Only fun c => c.looks = true

/-- What only looks writes nothing. -/
theorem Dialogue.Only.reads {ε α : Type} {d : Dialogue ε α} (h : d.Looks) : d.Reads := by
  refine h.mono ?_
  intro c hc
  cases c <;> first | rfl | cases hc

section

variable {id : String}

theorem only_attempt {p : Call → Prop} {c : Call} (h : p c) (purpose : Attempt) :
    (attempt purpose c).Only p :=
  (Dialogue.only_call h).mapError _

theorem only_fetch? {p : Call → Prop} (h : p (.describeRecord id)) : (fetch? id).Only p := by
  unfold fetch?
  refine Dialogue.Only.bind ⟨h, fun _ => trivial⟩ ?_
  intro answer
  cases answer with
  | ok r => trivial
  | error e =>
    dsimp only
    split <;> trivial

theorem only_fetchAll {p : Call → Prop} {ids : List String}
    (h : ∀ id ∈ ids, p (.describeRecord id)) : (fetchAll ids).Only p := by
  induction ids with
  | nil => trivial
  | cons id ids ih =>
    rw [List.forall_mem_cons] at h
    exact (only_fetch? h.1).bind fun _ => (ih h.2).bind fun _ => trivial

theorem only_recordsFrom {p : Call → Prop} {domain : String} {query : RecordQuery}
    (h : ∀ request, p (.listRecords domain query request)) (pages : Nat) (request : PageRequest) :
    (Remote.recordsFrom domain query pages request).Only p := by
  induction pages generalizing request with
  | zero => trivial
  | succ pages ih =>
    refine (Dialogue.only_call (h request)).bind ?_
    intro page
    split
    · trivial
    · exact (ih _).bind fun _ => trivial

theorem looks_fetchAll (ids : List String) : (fetchAll ids).Looks := only_fetchAll fun _ _ => rfl

theorem looks_recordsFrom (domain : String) (query : RecordQuery) (pages : Nat)
    (request : PageRequest) : (Remote.recordsFrom domain query pages request).Looks :=
  only_recordsFrom (fun _ => rfl) pages request

theorem looks_weightedHostFrom (domain host name : String) (pages : Nat)
    (request : PageRequest) :
    (Remote.weightedHostFrom domain host name pages request).Looks := by
  induction pages generalizing request with
  | zero => trivial
  | succ pages ih =>
    refine (Dialogue.only_call (p := (·.looks = true)) rfl).bind ?_
    intro page
    cases page.items.find? fun h => Text.sameLetters h.name name with
    | some found => trivial
    | none =>
      dsimp only
      split
      · trivial
      · exact ih _

theorem looks_resourceId (ids : List String) : (resourceId ids).Looks := by
  unfold resourceId
  cases ResourceId.new? ids <;> trivial

theorem looks_assemble (domain : String) (records : List StoredRecord) :
    (assemble domain records).Looks := by
  have hcomplete : ∀ host type, (completeWeights domain host type records).Looks := by
    intro host type
    unfold completeWeights
    split
    · exact ((looks_recordsFrom _ _ _ _).mapError _).bind fun _ => trivial
    · trivial
  have hweighting : ∀ host, (readWeighting domain host).Looks := fun host =>
    ((looks_weightedHostFrom _ _ _ _ _).mapError _).bind fun _ => trivial
  cases records with
  | nil => trivial
  | cons first rest =>
    exact (hcomplete _ _).bind fun _ => (hweighting _).bind fun _ =>
      (looks_resourceId _).bind fun _ => trivial

theorem looks_read? (id : ResourceId) (domain : String) : (read? id domain).Looks := by
  refine (looks_fetchAll id.ids).bind fun records => ?_
  split
  · trivial
  · exact (looks_assemble domain records).bind fun _ => trivial

/-- Reading back only looks. -/
theorem looks_readBack (id : ResourceId) (s : RecordSet) : (readBack id s).Looks := by
  unfold readBack
  split
  · trivial
  · refine (looks_read? id s.domain).bind fun found => ?_
    cases found <;> trivial

end

/-! ## Kinds of work -/

/-- The calls of work are where they belong. -/
structure Work.Sorted (w : Work) : Prop where
  core : ∀ c ∈ w.core, c.kind = .addRecord ∨ c.kind = .changeRecord ∨ c.kind = .deleteRecord
  weight : ∀ c ∈ w.weight, c.kind = .setWeight
  remark : ∀ c ∈ w.remark, c.kind = .setRemark
  status : ∀ c ∈ w.status, c.kind = .setStatus

section

variable {s : RecordSet} {log : List Exchange} {a : Action} {w : Work} {works : List Work}
  {actions : List Action} {c : Call}

theorem mem_map_toList {α : Type} {x : Option α} {f : α → Call} (h : c ∈ (x.map f).toList) :
    ∃ y, x = some y ∧ f y = c :=
  Option.map_eq_some_iff.mp (Option.mem_toList.mp h)

theorem Work.sorted_on {core : List Call}
    (hcore : ∀ c ∈ core, c.kind = .addRecord ∨ c.kind = .changeRecord ∨ c.kind = .deleteRecord)
    (id : String) (weight : Option UInt32) (remark : Option String) (status : Option Switch) :
    (Work.on core id weight remark status).Sorted where
  core := hcore
  weight c hc := by
    obtain ⟨_, -, rfl⟩ := mem_map_toList hc
    rfl
  remark c hc := by
    obtain ⟨_, -, rfl⟩ := mem_map_toList hc
    rfl
  status c hc := by
    obtain ⟨_, -, rfl⟩ := mem_map_toList hc
    rfl

theorem Work.sorted_only {core : List Call}
    (hcore : ∀ c ∈ core, c.kind = .addRecord ∨ c.kind = .changeRecord ∨ c.kind = .deleteRecord) :
    (Work.only core).Sorted :=
  ⟨hcore, by simp [only], by simp [only], by simp [only]⟩

theorem Planned.sorted (h : Planned s log a w) : w.Sorted := by
  cases h with
  | kept _ hcore =>
    refine Work.sorted_on ?_ _ _ _ _
    rcases hcore with rfl | ⟨-, rfl⟩ <;> simp [Call.kind]
  | added => exact Work.sorted_on (by simp [Call.kind]) _ _ _ _
  | adopted _ _ _ hcore =>
    refine Work.sorted_on ?_ _ _ _ _
    rcases hcore with rfl | rfl <;> simp [Call.kind]
  | deleted => exact Work.sorted_only (by simp [Call.kind])

theorem Begun.sorted (h : Begun s log a w) : w.Sorted := by
  cases h with
  | turn h =>
    cases h with
    | planned h => exact h.sorted
    | replaced => exact Work.sorted_on (by simp [Call.kind]) _ _ _ _
  | creating => exact Work.sorted_only (by simp [Call.kind])
  | replacing => exact Work.sorted_only (by simp [Call.kind])

/-- The calls of one kind in work. -/
def Work.part (k : ActionKind) (w : Work) : List Call :=
  match k with
  | .setWeight => w.weight
  | .setRemark => w.remark
  | .setStatus => w.status
  | k => w.core.filter (·.kind == k)

theorem filter_kind {calls : List Call} {k' : ActionKind} (h : ∀ c ∈ calls, c.kind = k')
    (k : ActionKind) : calls.filter (·.kind == k) = if k' = k then calls else [] := by
  split
  · rename_i heq
    refine List.filter_eq_self.mpr ?_
    intro c hc
    rw [h c hc, heq, beq_self_eq_true]
  · rename_i hne
    refine List.filter_eq_nil_iff.mpr ?_
    intro c hc
    rw [h c hc]
    simpa using hne

theorem Work.Sorted.filter_core (h : w.Sorted) {k : ActionKind}
    (hk : k = .setWeight ∨ k = .setRemark ∨ k = .setStatus) :
    w.core.filter (·.kind == k) = [] := by
  refine List.filter_eq_nil_iff.mpr ?_
  intro c hc
  rcases h.core c hc with h | h | h <;> rcases hk with rfl | rfl | rfl <;> rw [h] <;> decide

/-- The calls of one kind are made in the turn itself, unless they are for a weight that has to
wait. -/
theorem Work.Sorted.filter_now (h : w.Sorted) (deferred : Bool) (k : ActionKind) :
    (w.now deferred).filter (·.kind == k) =
      if deferred = true ∧ k = .setWeight then [] else w.part k := by
  have hweight : (if deferred then [] else w.weight).filter (·.kind == k) =
      if deferred then [] else if ActionKind.setWeight = k then w.weight else [] := by
    rw [apply_ite (List.filter _), filter_kind h.weight, List.filter_nil]
  have hwaits := h.filter_core (k := .setWeight) (.inl rfl)
  have hremark := h.filter_core (k := .setRemark) (.inr (.inl rfl))
  have hstatus := h.filter_core (k := .setStatus) (.inr (.inr rfl))
  unfold now extras
  rw [List.filter_append, List.filter_append, List.filter_append, hweight,
    filter_kind h.remark, filter_kind h.status]
  cases k <;> cases deferred <;> simp [part, hwaits, hremark, hstatus]

theorem Work.Sorted.filter_later (h : w.Sorted) (deferred : Bool) (k : ActionKind) :
    (w.later deferred).filter (·.kind == k) =
      if deferred = true ∧ k = .setWeight then w.part k else [] := by
  unfold later
  rw [apply_ite (List.filter _), filter_kind h.weight, List.filter_nil]
  cases k <;> cases deferred <;> simp [part]

/-- No work switches weighting. -/
theorem Work.Sorted.part_setWeighting (h : w.Sorted) : w.part .setWeighting = [] := by
  refine List.filter_eq_nil_iff.mpr ?_
  intro c hc
  rcases h.core c hc with h | h | h <;> rw [h] <;> decide

/-- The calls of one kind in a whole update are those in the work of its turns. -/
theorem Plan.filter_calls (hsorted : ∀ w ∈ works, w.Sorted) (plan : Plan) {k : ActionKind}
    (hk : k ≠ .setWeighting) :
    (plan.calls s works).filter (·.kind == k) = works.flatMap (·.part k) := by
  have hswitch : ((plan.weighting.map (switchCall s)).toList).filter (·.kind == k) = [] := by
    have hkind : ∀ c ∈ (plan.weighting.map (switchCall s)).toList, c.kind = .setWeighting := by
      intro c hc
      obtain ⟨position, -, rfl⟩ := mem_map_toList hc
      rfl
    rw [filter_kind hkind, if_neg (Ne.symm hk)]
  rw [calls, List.filter_append, List.filter_append, hswitch, List.nil_append,
    List.filter_flatMap, List.filter_flatMap]
  by_cases hwaits : plan.defersWeights = true ∧ k = .setWeight
  · have hnow : works.flatMap (fun w => (w.now plan.defersWeights).filter (·.kind == k)) = [] := by
      rw [List.flatMap_eq_nil_iff]
      intro w hw
      rw [(hsorted w hw).filter_now, if_pos hwaits]
    rw [hnow, List.nil_append]
    refine List.flatMap_congr ?_
    intro w hw
    rw [(hsorted w hw).filter_later, if_pos hwaits]
  · have hlater : works.flatMap (fun w => (w.later plan.defersWeights).filter (·.kind == k)) =
        [] := by
      rw [List.flatMap_eq_nil_iff]
      intro w hw
      rw [(hsorted w hw).filter_later, if_neg hwaits]
    rw [hlater, List.append_nil]
    refine List.flatMap_congr ?_
    intro w hw
    rw [(hsorted w hw).filter_now, if_neg hwaits]

/-- The only call that switches is that of the plan. -/
theorem Plan.filter_calls_switch (hsorted : ∀ w ∈ works, w.Sorted) (plan : Plan) :
    (plan.calls s works).filter (·.kind == .setWeighting) =
      (plan.weighting.map (switchCall s)).toList := by
  have hnow : works.flatMap
      (fun w => (w.now plan.defersWeights).filter (·.kind == .setWeighting)) = [] := by
    rw [List.flatMap_eq_nil_iff]
    intro w hw
    rw [(hsorted w hw).filter_now, (hsorted w hw).part_setWeighting]
    exact ite_self _
  have hlater : works.flatMap
      (fun w => (w.later plan.defersWeights).filter (·.kind == .setWeighting)) = [] := by
    rw [List.flatMap_eq_nil_iff]
    intro w hw
    rw [(hsorted w hw).filter_later, (hsorted w hw).part_setWeighting]
    exact ite_self _
  rw [calls, List.filter_append, List.filter_append, List.filter_flatMap, List.filter_flatMap,
    hnow, hlater, List.nil_append, List.append_nil]
  cases plan.weighting <;> rfl

end

/-- What stands in the second of two related lists is related to something in the first. -/
theorem exists_of_mem_right {α β : Type} {R : α → β → Prop} {l : List α} {l' : List β}
    (h : List.Forall₂ R l l') {b : β} (hb : b ∈ l') : ∃ a ∈ l, R a b := by
  induction h with
  | nil => cases hb
  | cons hab _ ih =>
    rcases List.mem_cons.mp hb with rfl | hb
    · exact ⟨_, List.mem_cons_self, hab⟩
    · obtain ⟨a, ha, h⟩ := ih hb
      exact ⟨a, List.mem_cons_of_mem _ ha, h⟩

/-! ## Plans -/

section

variable {old new desired : RecordSet} {prior : TrackedSet} {plan : Plan} {a : Action} {i : Nat}

/-- An action is one that is made for entries of a set: the entry is there, and a weight is set only
where weighting is to be on, and never zero. -/
def Action.Sound (s : RecordSet) : Action → Prop
  | .reconcile i _ _ weight _ _ => ∃ e, s.entries[i]? = some e ∧
      ∀ w, weight = some w → w = e.weight ∧ s.weighting.isOn = true ∧ e.weight ≠ 0
  | .create i => ∃ e, s.entries[i]? = some e
  | .delete _ _ => True

theorem Action.Sound.inRange (h : a.Sound desired) : a.InRange desired := by
  cases a with
  | reconcile =>
    obtain ⟨e, he, -⟩ := h
    exact ⟨e, he⟩
  | create => exact h
  | delete => trivial

theorem Plan.sound_createsFrom {after : List Entry} (hafter : new.entries.drop i = after) :
    ∀ a ∈ createsFrom i after, a.Sound new := by
  induction after generalizing i with
  | nil => exact fun _ ha => nomatch ha
  | cons e rest ih =>
    obtain ⟨he, hrest⟩ := of_drop_eq_cons hafter
    intro a ha
    rcases List.mem_cons.mp ha with rfl | ha
    · exact ⟨e, he⟩
    · exact ih hrest a ha

theorem Plan.sound_reconcile {id : String} {b e : Entry} (he : new.entries[i]? = some e) :
    ∀ a ∈ reconcile old new i id b e, a.Sound new := by
  unfold reconcile
  dsimp only
  split
  · intro a ha
    obtain rfl := List.mem_singleton.mp ha
    exact ⟨e, he, fun w hw => weightChange_eq_some hw⟩
  · exact fun _ ha => nomatch ha

theorem Plan.sound_actionsFrom {before : List (Entry × String)} {after : List Entry}
    (hafter : new.entries.drop i = after) :
    ∀ a ∈ actionsFrom old new i before after, a.Sound new := by
  -- by induction on the entries before, of which `i` is the index of the first
  induction before generalizing i after with
  | nil => exact sound_createsFrom hafter
  | cons b before ih =>
    obtain ⟨b, id⟩ := b
    cases after with
    | nil =>
      have hrest : new.entries.drop (i + 1) = [] := by
        rw [← List.drop_drop, hafter]
        rfl
      intro a ha
      rcases List.mem_cons.mp ha with rfl | ha
      · trivial
      · exact ih hrest a ha
    | cons e rest =>
      obtain ⟨he, hrest⟩ := of_drop_eq_cons hafter
      intro a ha
      rcases List.mem_append.mp ha with ha | ha
      · exact sound_reconcile he a ha
      · exact ih hrest a ha

/-- What a plan that can be made consists of. -/
theorem Lifecycle.of_plan_eq_done (h : Lifecycle.plan prior desired = .done plan) :
    desired.fault? = none ∧
      plan = ⟨Plan.actionsFrom prior.config desired 0 (prior.config.entries.zip prior.id.ids)
        desired.entries, Plan.weightingChange prior.config desired⟩ := by
  rcases Lifecycle.plan_cases prior desired with
    ⟨-, _, hplan⟩ | ⟨-, hplan⟩ | ⟨⟨hfault, -⟩, hplan⟩ <;> rw [hplan] at h
  · cases h
  · cases h
  · exact ⟨hfault, (Dialogue.done.inj h).symm⟩

/-- A plan is made without a call. -/
theorem Lifecycle.plan_ne_ask (prior : TrackedSet) (desired : RecordSet) (c : Call)
    (next : c.Answer → Operation Plan) : Lifecycle.plan prior desired ≠ .ask c next := by
  rcases Lifecycle.plan_cases prior desired with ⟨-, _, hplan⟩ | ⟨-, hplan⟩ | ⟨-, hplan⟩ <;>
    rw [hplan] <;> exact fun h => nomatch h

theorem Plan.sound (h : Lifecycle.plan prior desired = .done plan) :
    ∀ a ∈ plan.actions, a.Sound desired := by
  obtain ⟨-, rfl⟩ := of_plan_eq_done h
  exact sound_actionsFrom rfl

end

/-! ## What an update writes -/

section

variable {desired : RecordSet} {prior : TrackedSet} {plan : Plan} {log : List Exchange}

theorem issues_setWeighting (s : RecordSet) (position : Switch) :
    (setWeighting s position).Issues [switchCall s position] fun _ => True :=
  issues_attempt rfl _

/-- What follows the turns: the switch, then the weights that have waited for it. -/
theorem issues_afterTurns (weighting : Option Switch) (p : Progress) :
    (do
      whenSome weighting (setWeighting desired)
      weighPending p.pending
      resourceId (p.ids.take desired.entries.length) : Operation ResourceId).Issues
      ((weighting.map (switchCall desired)).toList ++ p.waits) fun _ => True := by
  have hlast : (do
      weighPending p.pending
      resourceId (p.ids.take desired.entries.length) : Operation ResourceId).Issues p.waits
      fun _ => True := by
    have h := (issues_weighPending p.pending).bind fun _ _ =>
      (looks_resourceId (p.ids.take desired.entries.length)).reads.issues
    rwa [List.append_nil] at h
  exact (issues_whenSome fun position => issues_setWeighting desired position).bind
    fun _ _ => hlast

/-- Whatever the service answers, an update makes the calls of its plan, and an error stops it at
one of them. -/
theorem always_changes (hplan : Lifecycle.plan prior desired = .done plan) :
    (changes prior desired).Always
      (fun _ log => ∃ works, List.Forall₂ (Turn desired log) plan.actions works ∧
        written log = plan.calls desired works)
      (fun _ log => ∃ works, List.Forall₂ (Begun desired log) plan.actions works ∧
        written log <+: plan.calls desired works) [] := by
  have hrange : ∀ a ∈ plan.actions, a.InRange desired := fun a ha =>
    (Plan.sound hplan a ha).inRange
  unfold changes
  rw [hplan, Dialogue.done_bind]
  split
  · rename_i hempty
    simp only [Plan.isEmpty, Bool.and_eq_true, List.isEmpty_iff, Option.isNone_iff_eq_none]
      at hempty
    refine ⟨[], ?_, ?_⟩
    · rw [hempty.1]
      exact .nil
    · rw [Plan.calls, hempty.2]
      rfl
  · have hknows : Knows desired ⟨prior.id.ids, [], none⟩ [] := by
      intro known h
      cases h
    rw [Dialogue.always_bind]
    refine (always_runActions hrange hknows).mono ?_ ?_
    · rintro p log₁ ⟨works, hturns, h₁, hwaits⟩
      have hpending : p.waits = works.flatMap (·.later plan.defersWeights) := hwaits
      refine (issues_afterTurns plan.weighting p log₁).mono ?_ ?_
      · rintro _ log' ⟨-, h⟩
        refine ⟨works, hturns.imp fun _ _ hturn => hturn.mono h.before, ?_⟩
        rw [h.written, h₁.written, hpending, List.append_assoc]
        rfl
      · rintro _ log' ⟨part, hpart, h⟩
        refine ⟨works, hturns.imp fun _ _ hturn => .turn (hturn.mono h.before), ?_⟩
        rw [hpending] at hpart
        rw [h.written, h₁.written]
        exact (List.prefix_append_right_inj _).mpr hpart
    · rintro _ log' ⟨works, part, hbegun, hpart, h⟩
      refine ⟨works, hbegun, ?_⟩
      rw [h.written]
      exact hpart.trans (List.prefix_append _ _)

/-- A log of an update is one of what it does, and where that has come to its end one of reading
back follows, which writes nothing. -/
theorem written_of_update {result : Except LifecycleError TrackedSet}
    (hplan : Lifecycle.plan prior desired = .done plan)
    (h : (update prior desired).Transcript log result) :
    ∃ works, List.Forall₂ (Begun desired log) plan.actions works ∧
      written log <+: plan.calls desired works := by
  have halways := always_changes hplan
  rw [update_eq_changes, Dialogue.transcript_bind_iff] at h
  rcases h with ⟨id, log₁, log₂, h₁, h₂, rfl⟩ | ⟨e, h, -⟩
  · obtain ⟨works, hturns, hwritten⟩ := halways.ended h₁
    have hread := (looks_readBack id desired).reads.written_eq_nil h₂
    have hsame : written (log₁ ++ log₂) = plan.calls desired works := by
      rw [written_append, hread, List.append_nil, hwritten]
    exact ⟨works, hturns.imp fun _ _ hturn => .turn (hturn.mono (List.subset_append_left _ _)),
      hsame ▸ List.prefix_refl _⟩
  · exact halways.ended h

end

end WeightedDns
