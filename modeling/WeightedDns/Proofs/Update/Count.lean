import WeightedDns.Proofs.Update.Replacement

/-!
# Keeping count

An update starts with the tracked IDs and holds one more after every create. How many there are when
an action is due follows from the plan alone (`Fit`): whatever the service answers, an action finds
the entry and the ID that it names, a create is done where its ID comes next, and at the end there
is one ID for each entry. The checks of these numbers never fail (`update_in_count`), so that an
update ends with a mismatch only where the tracked set has one itself, or where none of the records
is there any more when the set is read back.
-/

namespace WeightedDns

open Lifecycle

namespace Dialogue

variable {ε ε' α β : Type}

theorem bind_done (d : Dialogue ε α) : d >>= Dialogue.done = d := by
  induction d with
  | done a => rfl
  | fail e => rfl
  | ask c next ih => exact congrArg (Dialogue.ask c) (funext ih)

/-- What follows a dialogue matters only for the values that it can end with. -/
theorem Always.bind_congr {d : Dialogue ε α} {f g : α → Dialogue ε β}
    {post : α → List Exchange → Prop} {err : ε → List Exchange → Prop} {log : List Exchange}
    (h : d.Always post err log) (hfg : ∀ a log, post a log → f a = g a) :
    d >>= f = d >>= g := by
  induction d generalizing log with
  | done a => exact hfg a log h
  | fail e => rfl
  | ask c next ih => exact congrArg (Dialogue.ask c) (funext fun r => ih r (h r))

/-- Whatever is answered, a value at the end satisfies `post`, and an error `err`. -/
def Ends (d : Dialogue ε α) (post : α → Prop) (err : ε → Prop) : Prop :=
  ∀ log, d.Always (fun a _ => post a) (fun e _ => err e) log

section

variable {d : Dialogue ε α} {post post' : α → Prop} {err : ε → Prop} {log : List Exchange}

theorem Ends.of_ok (h : d.Ends post err) {a : α} (htranscript : d.Transcript log (.ok a)) :
    post a :=
  (h []).ended htranscript

theorem Ends.of_error (h : d.Ends post err) {e : ε} (htranscript : d.Transcript log (.error e)) :
    err e :=
  (h []).ended htranscript

theorem ends_done {a : α} (h : post a) : (Dialogue.done a).Ends post err := fun _ => h

theorem ends_fail {e : ε} (h : err e) : (Dialogue.fail e : Dialogue ε α).Ends post err := fun _ => h

theorem ends_answerOf {c : Call} {f : c.Answer → Dialogue ε α} (h : ∀ r, (f r).Ends post err) :
    (answerOf c >>= f).Ends post err := fun _ r => h r _

theorem ends_of_forall (hpost : ∀ a, post a) (herr : ∀ e, err e) : d.Ends post err := by
  intro log
  induction d generalizing log with
  | done a => exact hpost a
  | fail e => exact herr e
  | ask c next ih => exact fun r => ih r _

theorem Ends.mono (h : d.Ends post err) (hpost : ∀ a, post a → post' a) : d.Ends post' err :=
  fun log => (h log).mono (fun a _ => hpost a) fun _ _ he => he

theorem Ends.bind {f : α → Dialogue ε β} {post' : β → Prop} (h : d.Ends post err)
    (hf : ∀ a, post a → (f a).Ends post' err) : (d >>= f).Ends post' err := by
  intro log
  rw [always_bind]
  exact (h log).mono (fun a log' ha => hf a ha log') fun _ _ he => he

end

end Dialogue

/-! ## Steps -/

/-- The operation ends in count: with a value that satisfies `post`, or an error that is no
mismatch of records and entries. -/
abbrev Dialogue.InCount {α : Type} (d : Operation α) (post : α → Prop) : Prop :=
  d.Ends post fun e => ∀ m n, e ≠ .countMismatch m n

section

variable {α : Type} {s : RecordSet} {e : Entry} {id : String} {p : Progress} {deferred : Bool}
  {weight : Option UInt32} {remark : Option String} {status : Option Switch}

theorem inCount_remote (purpose : Attempt) (d : Dialogue ServiceError α) :
    (d.mapError (.remote purpose)).InCount fun _ => True := by
  have h : d.Ends (fun _ => True) fun e => ∀ m n,
      LifecycleError.remote purpose e ≠ .countMismatch m n :=
    Dialogue.ends_of_forall (fun _ => trivial) fun _ _ _ h => nomatch h
  intro log
  rw [Dialogue.always_mapError]
  exact h log

theorem inCount_attempt (purpose : Attempt) (c : Call) :
    (attempt purpose c).InCount fun _ => True :=
  inCount_remote purpose _

theorem inCount_whenSome {a : Option α} {f : α → Operation Unit}
    (h : ∀ a, (f a).InCount fun _ => True) : (whenSome a f).InCount fun _ => True := by
  cases a with
  | none => exact Dialogue.ends_done trivial
  | some a => exact h a

theorem inCount_listed (s : RecordSet) : (listed s).InCount fun _ => True :=
  (inCount_remote _ _).bind fun _ _ => Dialogue.ends_done trivial

theorem inCount_fetch? (id : String) : (fetch? id).InCount fun _ => True := by
  refine Dialogue.ends_answerOf fun answer => ?_
  cases answer with
  | ok r => exact Dialogue.ends_done trivial
  | error e =>
    dsimp only
    split
    · exact Dialogue.ends_done trivial
    · exact Dialogue.ends_fail fun _ _ h => nomatch h

theorem inCount_deleteOne (id : String) : (deleteOne id).InCount fun _ => True := by
  refine Dialogue.ends_answerOf fun answer => ?_
  cases answer with
  | ok u => exact Dialogue.ends_done trivial
  | error e =>
    dsimp only
    split
    · exact Dialogue.ends_done trivial
    · exact Dialogue.ends_fail fun _ _ h => nomatch h

theorem inCount_resourceId (ids : List String) :
    (resourceId ids).InCount fun id => id.ids = ids := by
  unfold resourceId ResourceId.new?
  split
  · rename_i id hid
    split at hid
    · cases hid
      exact Dialogue.ends_done rfl
    · cases hid
  · exact Dialogue.ends_fail fun _ _ h => nomatch h

theorem inCount_dress : (dress id remark status).InCount fun _ => True :=
  (inCount_whenSome fun _ => inCount_attempt _ _).bind fun _ _ =>
    inCount_whenSome fun _ => inCount_attempt _ _

theorem inCount_weighPending (pending : List (String × UInt32)) :
    (weighPending pending).InCount fun _ => True := by
  induction pending with
  | nil => exact Dialogue.ends_done trivial
  | cons x pending ih => exact (inCount_attempt _ _).bind fun _ _ => ih

theorem inCount_ensure (known : List StoredRecord) :
    (ensure s known e).InCount fun _ => True := by
  unfold ensure
  split
  · split
    · exact (inCount_attempt _ _).bind fun _ _ => Dialogue.ends_done trivial
    · exact Dialogue.ends_done trivial
  · exact (inCount_attempt _ _).bind fun _ _ => Dialogue.ends_done trivial

theorem inCount_reconcileCore (checkCore : Bool) :
    (reconcileCore s e id checkCore).InCount fun _ => True := by
  refine (inCount_fetch? id).bind fun found _ => ?_
  cases found with
  | none => exact (inCount_attempt _ _).bind fun _ _ => Dialogue.ends_done trivial
  | some stored =>
    dsimp only
    split
    · exact (inCount_attempt _ _).bind fun _ _ => Dialogue.ends_done trivial
    · exact Dialogue.ends_done trivial

theorem inCount_weigh (w : UInt32) :
    (weigh deferred id w p).InCount fun p' => p'.ids = p.ids := by
  unfold weigh
  split
  · exact Dialogue.ends_done rfl
  · exact (inCount_attempt _ _).bind fun _ _ => Dialogue.ends_done rfl

/-- Touching a record leaves the IDs as they are. -/
theorem inCount_touch :
    (touch deferred id weight remark status p).InCount fun p' => p'.ids = p.ids := by
  cases weight with
  | none => exact inCount_dress.bind fun _ _ => Dialogue.ends_done rfl
  | some w =>
    refine (inCount_weigh w).bind fun p' h => inCount_dress.bind fun _ _ => ?_
    exact Dialogue.ends_done h

theorem inCount_runReconcile (index : Nat) (checkCore : Bool) :
    (runReconcile s deferred e index id checkCore weight remark status p).InCount
      fun p' => p'.ids.length = p.ids.length := by
  rw [runReconcile_eq]
  refine (inCount_reconcileCore checkCore).bind fun replaced _ => ?_
  cases replaced with
  | none => exact inCount_touch.mono fun _ h => congrArg List.length h
  | some newId => exact inCount_touch.mono fun _ h => by rw [h, List.length_set]

theorem inCount_runCreate :
    (runCreate s deferred e p).InCount fun p' => p'.ids.length = p.ids.length + 1 := by
  have hplaced : ∀ known, (ensure s known e >>= fun found =>
      touch deferred found.1 (startingWeight s e) (missingRemark e found.2)
        (missingStatus e found.2) { p with known := some known } >>= fun p =>
      pure { p with ids := p.ids ++ [found.1] }).InCount
        fun p' => p'.ids.length = p.ids.length + 1 := by
    intro known
    refine (inCount_ensure known).bind fun found _ =>
      inCount_touch.bind fun p' h => Dialogue.ends_done ?_
    rw [List.length_append, h]
    rfl
  rw [runCreate_eq]
  cases p.known with
  | none => exact (inCount_listed s).bind fun known _ => hplaced known
  | some known => exact hplaced known

end

/-! ## Plans -/

section

variable {tracked : List String} {s old new : RecordSet} {a : Action}
  {actions actions' first rest : List Action} {i k m n : Nat}

/-- What an action names is there when `n` IDs are held, and a create is for the next entry. -/
def Action.Fits (tracked : List String) (s : RecordSet) (n : Nat) : Action → Prop
  | .reconcile i id _ _ _ _ => i < s.entries.length ∧ i < n ∧ tracked[i]? = some id
  | .create i => i < s.entries.length ∧ i = n
  | .delete i id => tracked[i]? = some id

/-- How many IDs are held after an action, if there were `n` before it. -/
def Action.held (n : Nat) : Action → Nat
  | .create _ => n + 1
  | _ => n

/-- Each of the actions fits when it is its turn: `n` IDs are held before them, and `m` after. -/
inductive Fit (tracked : List String) (s : RecordSet) : Nat → List Action → Nat → Prop where
  | nil (n : Nat) : Fit tracked s n [] n
  | cons {n m : Nat} {a : Action} {actions : List Action} (h : a.Fits tracked s n)
      (rest : Fit tracked s (a.held n) actions m) : Fit tracked s n (a :: actions) m

theorem Fit.append (h : Fit tracked s n actions k) (h' : Fit tracked s k actions' m) :
    Fit tracked s n (actions ++ actions') m := by
  induction h with
  | nil n => exact h'
  | cons ha _ ih => exact .cons ha (ih h')

/-- An action in the middle fits after those before it. -/
theorem Fit.split (h : Fit tracked s n (first ++ a :: rest) m) :
    ∃ k, Fit tracked s n first k ∧ a.Fits tracked s k := by
  induction first generalizing n with
  | nil =>
    cases h with
    | cons ha _ => exact ⟨n, .nil n, ha⟩
  | cons b first ih =>
    cases h with
    | cons hb hrest =>
      obtain ⟨k, hfirst, ha⟩ := ih hrest
      exact ⟨k, .cons hb hfirst, ha⟩

theorem fit_createsFrom {after : List Entry} (hafter : s.entries.drop i = after) :
    Fit tracked s i (Plan.createsFrom i after) (i + after.length) := by
  induction after generalizing i with
  | nil => exact .nil i
  | cons e after ih =>
    obtain ⟨he, hrest⟩ := of_drop_eq_cons hafter
    refine .cons ⟨(List.getElem?_eq_some_iff.mp he).1, rfl⟩ ?_
    rw [List.length_cons, Nat.add_comm after.length, ← Nat.add_assoc]
    exact ih hrest

theorem fit_reconcile {id : String} {b e : Entry} (hi : i < new.entries.length) (hn : i < n)
    (hid : tracked[i]? = some id) :
    Fit tracked new n (Plan.reconcile old new i id b e) n := by
  unfold Plan.reconcile
  dsimp only
  split
  · exact .cons ⟨hi, hn, hid⟩ (.nil n)
  · exact .nil n

/-- The actions of a plan fit if one ID is held for each entry before: there is one for each entry
of the longer set after them. -/
theorem fit_actionsFrom {before : List (Entry × String)} {after : List Entry}
    (hids : tracked.drop i = before.map (·.2)) (hafter : new.entries.drop i = after) :
    Fit tracked new (i + before.length) (Plan.actionsFrom old new i before after)
      (i + max before.length after.length) := by
  -- by induction on the entries before, of which `i` is the index of the first
  induction before generalizing i after with
  | nil =>
    rw [Plan.actionsFrom, List.length_nil, Nat.zero_max, Nat.add_zero]
    exact fit_createsFrom hafter
  | cons x before ih =>
    obtain ⟨b, id⟩ := x
    obtain ⟨hid, hids'⟩ := of_drop_eq_cons hids
    have hheld : i + (before.length + 1) = i + 1 + before.length := by omega
    cases after with
    | nil =>
      have hafter' : new.entries.drop (i + 1) = [] := by
        rw [← List.drop_drop, hafter]
        rfl
      refine .cons hid ?_
      simpa [hheld, Action.held] using ih hids' hafter'
    | cons e after =>
      obtain ⟨he, hafter'⟩ := of_drop_eq_cons hafter
      have hi := (List.getElem?_eq_some_iff.mp he).1
      have hlast : i + max (before.length + 1) (after.length + 1) =
          i + 1 + max before.length after.length := by omega
      rw [Plan.actionsFrom, List.length_cons, List.length_cons, hheld, hlast]
      exact (fit_reconcile hi (by omega) hid).append (ih hids' hafter')

end

/-! ## Runs of actions -/

section

variable {tracked : List String} {s : RecordSet} {deferred : Bool} {p : Progress} {a : Action}
  {actions : List Action} {m : Nat}

theorem inCount_runAction (h : a.Fits tracked s p.ids.length) :
    (runAction s deferred p a).InCount fun p' => p'.ids.length = a.held p.ids.length := by
  cases a with
  | reconcile i id core weight remark status =>
    rw [runAction]
    split
    · exact Dialogue.ends_done rfl
    · exact inCount_runReconcile i core
  | create i =>
    obtain ⟨hi, rfl⟩ := h
    rw [runAction_create (List.getElem?_eq_getElem hi), if_neg (fun hne => hne rfl)]
    exact inCount_runCreate
  | delete i id => exact (inCount_deleteOne id).bind fun _ _ => Dialogue.ends_done rfl

/-- Actions that fit are done in count, whatever the service answers. -/
theorem inCount_runActions (h : Fit tracked s p.ids.length actions m) :
    (runActions s deferred p actions).InCount fun p' => p'.ids.length = m := by
  generalize hn : p.ids.length = n at h
  induction h generalizing p with
  | nil n => exact Dialogue.ends_done hn
  | cons ha _ ih =>
    subst hn
    exact (inCount_runAction ha).bind fun p' hp' => ih hp'

end

/-! ## Reading back -/

section

variable {s : RecordSet} {id : ResourceId}

theorem inCount_fetchAll (ids : List String) : (fetchAll ids).InCount fun _ => True := by
  induction ids with
  | nil => exact Dialogue.ends_done trivial
  | cons id ids ih =>
    exact (inCount_fetch? id).bind fun _ _ => ih.bind fun _ _ => Dialogue.ends_done trivial

theorem inCount_assemble (domain : String) (first : StoredRecord) (rest : List StoredRecord) :
    (assemble domain (first :: rest)).InCount fun _ => True := by
  have hcomplete : (completeWeights domain first.host first.type (first :: rest)).InCount
      fun _ => True := by
    unfold completeWeights
    split
    · exact (inCount_remote _ _).bind fun _ _ => Dialogue.ends_done trivial
    · exact Dialogue.ends_done trivial
  have hweighting : (readWeighting domain first.host).InCount fun _ => True :=
    (inCount_remote _ _).bind fun _ _ => Dialogue.ends_done trivial
  exact hcomplete.bind fun _ _ => hweighting.bind fun _ _ =>
    (inCount_resourceId _).bind fun _ _ => Dialogue.ends_done trivial

/-- What reading back does with the records that it has fetched. -/
def putTogether (s : RecordSet) : List StoredRecord → Operation TrackedSet
  | [] => .fail (.countMismatch 0 s.entries.length)
  | first :: rest => assemble s.domain (first :: rest)

/-- With one ID for each entry, reading back fetches the records and puts them together. -/
theorem readBack_eq (h : id.size = s.entries.length) :
    readBack id s = fetchAll id.ids >>= putTogether s := by
  unfold readBack read?
  rw [if_neg (fun hne => hne h), Dialogue.bind_assoc]
  congr 1
  funext records
  cases records with
  | nil => rfl
  | cons first rest =>
    change (assemble s.domain (first :: rest) >>= fun state => .done (some state)) >>= _ = _
    rw [Dialogue.bind_assoc]
    exact Dialogue.bind_done _

end

/-! ## Whole updates -/

section

variable {prior : TrackedSet} {desired : RecordSet} {plan : Plan} {first rest : List Action}
  {a : Action}

theorem changes_of_plan_fail {e : LifecycleError} (h : Lifecycle.plan prior desired = .fail e) :
    changes prior desired = .fail e := by
  unfold changes
  rw [h, Dialogue.fail_bind]

/-- A tracked set for which there is a plan has one ID for each entry. -/
theorem size_of_plan (h : Lifecycle.plan prior desired = .done plan) :
    prior.id.ids.length = prior.config.entries.length := by
  rcases Lifecycle.plan_cases prior desired with
    ⟨-, _, hplan⟩ | ⟨-, hplan⟩ | ⟨⟨-, -, hsize⟩, -⟩
  · rw [hplan] at h
    cases h
  · rw [hplan] at h
    cases h
  · exact hsize

/-- A plan fits the tracked set that it has been made for, and leaves no ID too few. -/
theorem fit_plan (h : Lifecycle.plan prior desired = .done plan) :
    Fit prior.id.ids desired prior.id.ids.length plan.actions
      (max prior.id.ids.length desired.entries.length) := by
  have hsize := size_of_plan h
  obtain ⟨-, rfl⟩ := of_plan_eq_done h
  have hids : prior.id.ids.drop 0 = (prior.config.entries.zip prior.id.ids).map (·.2) :=
    (List.map_snd_zip (Nat.le_of_eq hsize)).symm
  have hfit : Fit prior.id.ids desired _ (Plan.actionsFrom prior.config desired 0
      (prior.config.entries.zip prior.id.ids) desired.entries) _ :=
    fit_actionsFrom hids List.drop_zero
  rwa [List.length_zip, ← hsize, Nat.min_self, Nat.zero_add, Nat.zero_add] at hfit

/-- Where there is nothing to do, both sets have the same number of entries. -/
theorem size_of_idle (h : Lifecycle.plan prior desired = .done plan) (hidle : plan.isEmpty = true) :
    prior.id.size = desired.entries.length := by
  have hsize := size_of_plan h
  obtain ⟨-, rfl⟩ := of_plan_eq_done h
  simp only [Plan.isEmpty, Bool.and_eq_true, List.isEmpty_iff] at hidle
  have hlength := Plan.length_eq_of_actionsFrom_nil hidle.1
  rwa [List.length_zip, ← hsize, Nat.min_self] at hlength

/-- Once it is planned, an update comes to read back one ID for each entry, or fails for another
reason than their number. -/
theorem inCount_changes (h : Lifecycle.plan prior desired = .done plan) :
    (changes prior desired).InCount fun id => id.size = desired.entries.length := by
  unfold changes
  rw [h, Dialogue.done_bind]
  split
  · rename_i hidle
    exact Dialogue.ends_done (size_of_idle h hidle)
  · refine (inCount_runActions (p := ⟨prior.id.ids, [], none⟩) (fit_plan h)).bind fun p hp => ?_
    refine (inCount_whenSome fun _ => inCount_attempt _ _).bind fun _ _ => ?_
    refine (inCount_weighPending _).bind fun _ _ => ?_
    refine (inCount_resourceId _).mono fun id hid => ?_
    rw [ResourceId.size, hid, List.length_take, hp]
    omega

/-- What an update changes ends with one ID for each entry. -/
theorem size_of_changes {log : List Exchange} {id : ResourceId}
    (h : (changes prior desired).Transcript log (.ok id)) : id.size = desired.entries.length := by
  rcases Lifecycle.plan_cases prior desired with ⟨-, _, hplan⟩ | ⟨-, hplan⟩ | ⟨-, hplan⟩
  · rw [changes_of_plan_fail hplan] at h
    cases h
  · rw [changes_of_plan_fail hplan] at h
    cases h
  · exact (inCount_changes hplan).of_ok h

/-- Until it reads back, an update ends with a mismatch exactly if the tracked set has it. -/
theorem changes_mismatch_iff {log : List Exchange} {m n : Nat} :
    (changes prior desired).Transcript log (.error (.countMismatch m n)) ↔
      log = [] ∧ desired.fault? = none ∧ prior.config.domain = desired.domain ∧
        m = prior.id.size ∧ n = prior.config.entries.length ∧ m ≠ n := by
  rcases Lifecycle.plan_cases prior desired with
    ⟨hrefused, _, hplan⟩ | ⟨⟨hfault, hdomain, hsize⟩, hplan⟩ | ⟨⟨-, -, hsize⟩, hplan⟩
  · rw [changes_of_plan_fail hplan]
    refine iff_of_false (fun h => nomatch h) ?_
    rintro ⟨-, hfault, hdomain, -⟩
    exact hrefused ⟨hfault, hdomain⟩
  · rw [changes_of_plan_fail hplan]
    constructor
    · rintro ⟨⟩
      exact ⟨rfl, hfault, hdomain, rfl, rfl, hsize⟩
    · rintro ⟨rfl, -, -, rfl, rfl, -⟩
      exact .fail _
  · refine iff_of_false (fun h => (inCount_changes hplan).of_error h m n rfl) ?_
    rintro ⟨-, -, -, rfl, rfl, hne⟩
    exact hne hsize

/-- An update that has made its changes fetches the records and puts them together: it does not
come to the check of their number. -/
theorem update_eq_putTogether (prior : TrackedSet) (desired : RecordSet) :
    update prior desired =
      changes prior desired >>= fun id => fetchAll id.ids >>= putTogether desired := by
  rw [update_eq_changes]
  rcases Lifecycle.plan_cases prior desired with ⟨-, _, hplan⟩ | ⟨-, hplan⟩ | ⟨-, hplan⟩
  · rw [changes_of_plan_fail hplan]
    rfl
  · rw [changes_of_plan_fail hplan]
    rfl
  · exact (inCount_changes hplan []).bind_congr fun id _ hsize => readBack_eq hsize

/-- Each action of an update fits the IDs that are held when its turn comes. -/
theorem fits_of_firstActions (h : Lifecycle.plan prior desired = .done plan)
    (hactions : plan.actions = first ++ a :: rest) {log : List Exchange} {p : Progress}
    (hfirst : (firstActions prior desired plan first).Transcript log (.ok p)) :
    a.Fits prior.id.ids desired p.ids.length := by
  have hfit := fit_plan h
  rw [hactions] at hfit
  obtain ⟨k, hbefore, ha⟩ := hfit.split
  have hcount : p.ids.length = k :=
    (inCount_runActions (p := ⟨prior.id.ids, [], none⟩) hbefore).of_ok hfirst
  rwa [hcount]

/-- What is fetched leads to a mismatch exactly if it is nothing. -/
theorem fetched_mismatch_iff {ids : List String} {log : List Exchange} {m n : Nat} :
    (fetchAll ids >>= putTogether desired).Transcript log (.error (.countMismatch m n)) ↔
      m = 0 ∧ n = desired.entries.length ∧ (fetchAll ids).Transcript log (.ok []) := by
  rw [Dialogue.transcript_bind_iff]
  constructor
  · rintro (⟨records, log₁, log₂, hfetched, hput, rfl⟩ | ⟨e, hfailed, heq⟩)
    · cases records with
      | nil =>
        cases hput
        rw [List.append_nil]
        exact ⟨rfl, rfl, hfetched⟩
      | cons first rest => exact absurd rfl ((inCount_assemble _ _ _).of_error hput m n)
    · cases heq
      exact absurd rfl ((inCount_fetchAll ids).of_error hfailed m n)
  · rintro ⟨rfl, rfl, hfetched⟩
    exact .inl ⟨[], log, [], hfetched, .fail _, (List.append_nil log).symm⟩

/-- The checks inside of an update never fail, whoever answers. Each action names an entry and an ID
that are there, and a create comes where its ID is the next one; the set is read back by one ID for
each entry and is put together from at least one record. So an update ends with a mismatch of IDs
and entries exactly if the tracked set has it, before any call, or if none of the records is found
when they are read back. -/
theorem update_in_count (prior : TrackedSet) (desired : RecordSet) :
    (∀ plan first a rest log p, Lifecycle.plan prior desired = .done plan →
      plan.actions = first ++ a :: rest →
      (firstActions prior desired plan first).Transcript log (.ok p) →
      a.Fits prior.id.ids desired p.ids.length) ∧
    (∀ log id, (changes prior desired).Transcript log (.ok id) →
      id.size = desired.entries.length) ∧
    (update prior desired =
      changes prior desired >>= fun id => fetchAll id.ids >>= putTogether desired) ∧
    ∀ log m n, (update prior desired).Transcript log (.error (.countMismatch m n)) ↔
      (log = [] ∧ desired.fault? = none ∧ prior.config.domain = desired.domain ∧
        m = prior.id.size ∧ n = prior.config.entries.length ∧ m ≠ n) ∨
      (m = 0 ∧ n = desired.entries.length ∧ ∃ id log₁ log₂,
        (changes prior desired).Transcript log₁ (.ok id) ∧
        (fetchAll id.ids).Transcript log₂ (.ok []) ∧ log = log₁ ++ log₂) := by
  refine ⟨fun plan first a rest log p hplan hactions hfirst =>
    fits_of_firstActions hplan hactions hfirst, fun log id => size_of_changes,
    update_eq_putTogether prior desired, ?_⟩
  intro log m n
  rw [update_eq_putTogether, Dialogue.transcript_bind_iff]
  constructor
  · rintro (⟨id, log₁, log₂, hchanges, hput, rfl⟩ | ⟨e, hfailed, heq⟩)
    · obtain ⟨hm, hn, hfetched⟩ := fetched_mismatch_iff.mp hput
      exact .inr ⟨hm, hn, id, log₁, log₂, hchanges, hfetched, rfl⟩
    · cases heq
      exact .inl (changes_mismatch_iff.mp hfailed)
  · rintro (hplanning | ⟨hm, hn, id, log₁, log₂, hchanges, hfetched, rfl⟩)
    · exact .inr ⟨_, changes_mismatch_iff.mpr hplanning, rfl⟩
    · exact .inl ⟨id, log₁, log₂, hchanges, fetched_mismatch_iff.mpr ⟨hm, hn, hfetched⟩, rfl⟩

end

/-! ### A set that grows, and one that is gone -/

/-- The second record gets another value, and there is a third one. -/
def outgrown : RecordSet := Zone.plain "www" ["192.0.2.1", "192.0.2.9", "192.0.2.3"]

/-- The second record is found and changed. -/
def outgrowing : List Exchange :=
  [⟨.describeRecord "1001", .ok {
      id := "1001", domain := "example.com", host := "www", type := .a, value := "192.0.2.2",
      ttl := 600, line := RecordSet.defaultLine, weight := none, status := .enabled,
      remark := none, priority := none, locked := false }⟩,
    ⟨.changeRecord (.of outgrown ⟨"192.0.2.9", 600, 1, .enabled, none⟩ "1001"), .ok ()⟩]

/-- Neither of two records is found. -/
def bothGone : List Exchange :=
  [⟨.describeRecord "1000", Zone.error (Zone.missing "1000")⟩,
    ⟨.describeRecord "1001", Zone.error (Zone.missing "1001")⟩]

theorem outgrown_in_count :
    (Action.create 2).Fits ["1000", "1001"] outgrown 2 ∧
      (update Zone.pairRead Zone.pairRead.config).Transcript bothGone
        (.error (.countMismatch 0 2)) := by
  have hfirst : (firstActions Zone.pairRead outgrown
      ⟨[.reconcile 1 "1001" true none none none, .create 2], none⟩
      [.reconcile 1 "1001" true none none none]).Transcript outgrowing
        (.ok ⟨["1000", "1001"], [], none⟩) := .ask (.ask (.done _))
  constructor
  · exact (update_in_count Zone.pairRead outgrown).1 _ _ _ [] _ _ rfl rfl hfirst
  · -- nothing is changed, so the update comes to read the two records back at once
    refine ((update_in_count Zone.pairRead Zone.pairRead.config).2.2.2 bothGone 0 2).mpr (.inr ?_)
    exact ⟨rfl, rfl, ⟨["1000", "1001"]⟩, [], bothGone, .done _, .ask (.ask (.done _)), rfl⟩

end WeightedDns
