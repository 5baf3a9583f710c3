import Mathlib.Data.List.Forall2
import WeightedDns.Proofs.Dialogue.Log
import WeightedDns.Proofs.Update.Touch

/-!
# Turns

Each action of a plan has its turn, in which it comes down to a few writing calls: for the core of
a record, for its weight, and for its remark and status (`Work`). Which record that is can depend
on what the service has answered, so `Turn` ties the work to a log. Whatever the service answers,
doing the actions makes the calls of their turns one after another, and an error stops it at one of
them (`always_runActions`).
-/

namespace WeightedDns

open Lifecycle

/-- What the record with an ID is changed to for an entry of a set. -/
def RecordChange.of (s : RecordSet) (e : Entry) (id : String) : RecordChange :=
  ⟨id, s.host, s.type, e.value, e.ttl, s.line, s.priority⟩

/-- The writing calls for one record. -/
structure Work where
  /-- What sees to host, type, value and the like. -/
  core : List Call
  weight : List Call
  remark : List Call
  status : List Call

namespace Work

/-- Work on a record whose ID is known. -/
def on (core : List Call) (id : String) (weight : Option UInt32) (remark : Option String)
    (status : Option Switch) : Work where
  core := core
  weight := (weight.map (.setWeight id)).toList
  remark := (remark.map (.setRemark id)).toList
  status := (status.map (.setStatus id)).toList

/-- Work on a record that comes to an entry and already carries a remark and a status. -/
def placing (s : RecordSet) (e : Entry) (core : List Call) (id : String) (carried : Extras) :
    Work :=
  .on core id (startingWeight s e) (missingRemark e carried) (missingStatus e carried)

/-- Work that ends with the core. -/
def only (core : List Call) : Work := ⟨core, [], [], []⟩

/-- The calls for remark and status. -/
def extras (w : Work) : List Call := w.remark ++ w.status

/-- The calls of a turn itself. -/
def now (deferred : Bool) (w : Work) : List Call :=
  w.core ++ ((if deferred then [] else w.weight) ++ w.extras)

/-- The calls that wait until weighting is on. -/
def later (deferred : Bool) (w : Work) : List Call := if deferred then w.weight else []

end Work

/-! ## What a log shows -/

/-- The record has been listed for host and type of a set. -/
def Listed (s : RecordSet) (log : List Exchange) (r : StoredRecord) : Prop :=
  (∃ request page, (⟨.listRecords s.domain ⟨some s.host, some s.type, none⟩ request,
      .ok page⟩ : Exchange) ∈ log ∧ r ∈ page.items) ∧
    Text.sameLetters r.host s.host = true ∧ r.type = s.type

/-- A record has been added for an entry and got an ID. -/
def AddedAs (s : RecordSet) (e : Entry) (log : List Exchange) (id : String) : Prop :=
  (⟨.addRecord (.of s e), .ok id⟩ : Exchange) ∈ log

/-- Fetching has found the record with an ID gone. -/
def FoundGone (log : List Exchange) (id : String) : Prop :=
  ∃ e : ServiceError, (⟨.describeRecord id, .error e⟩ : Exchange) ∈ log ∧ e.cause.isNotFound = true

/-- Work that does what is planned: on the record that is kept, on one that has been added or
listed for an entry without a record, or on the record that is to go. -/
inductive Planned (s : RecordSet) (log : List Exchange) : Action → Work → Prop where
  | kept {i : Nat} {id : String} {checkCore : Bool} {weight : Option UInt32}
      {remark : Option String} {status : Option Switch} {e : Entry} {core : List Call}
      (he : s.entries[i]? = some e)
      (hcore : core = [] ∨ (checkCore = true ∧ core = [.changeRecord (.of s e id)])) :
      Planned s log (.reconcile i id checkCore weight remark status)
        (.on core id weight remark status)
  | added {i : Nat} {e : Entry} {id : String} (he : s.entries[i]? = some e)
      (hid : AddedAs s e log id) :
      Planned s log (.create i) (.placing s e [.addRecord (.of s e)] id .fresh)
  | adopted {i : Nat} {e : Entry} {r : StoredRecord} {core : List Call}
      (he : s.entries[i]? = some e) (hr : Listed s log r) (hvalue : r.value = e.value)
      (hcore : core = [] ∨ core = [.changeRecord (.of s e r.id)]) :
      Planned s log (.create i) (.placing s e core r.id (.of r))
  | deleted {i : Nat} {id : String} : Planned s log (.delete i id) (.only [.deleteRecord id])

/-- Work in the turn of an action. A record that is to be kept and is gone is added anew. -/
inductive Turn (s : RecordSet) (log : List Exchange) : Action → Work → Prop where
  | planned {a : Action} {w : Work} (h : Planned s log a w) : Turn s log a w
  | replaced {i : Nat} {id newId : String} {checkCore : Bool} {weight : Option UInt32}
      {remark : Option String} {status : Option Switch} {e : Entry} (he : s.entries[i]? = some e)
      (hgone : FoundGone log id) (hid : AddedAs s e log newId) :
      Turn s log (.reconcile i id checkCore weight remark status)
        (.placing s e [.addRecord (.of s e)] newId .fresh)

/-- Work in a turn that may have got no further than asking for a record to be added. -/
inductive Begun (s : RecordSet) (log : List Exchange) : Action → Work → Prop where
  | turn {a : Action} {w : Work} (h : Turn s log a w) : Begun s log a w
  | creating {i : Nat} {e : Entry} (he : s.entries[i]? = some e) :
      Begun s log (.create i) (.only [.addRecord (.of s e)])
  | replacing {i : Nat} {id : String} {checkCore : Bool} {weight : Option UInt32}
      {remark : Option String} {status : Option Switch} {e : Entry} (he : s.entries[i]? = some e)
      (hgone : FoundGone log id) :
      Begun s log (.reconcile i id checkCore weight remark status)
        (.only [.addRecord (.of s e)])

section

variable {s : RecordSet} {log log' : List Exchange} {a : Action} {w : Work} {r : StoredRecord}
  {id : String}

theorem Listed.mono (h : Listed s log r) (hsub : log ⊆ log') : Listed s log' r := by
  obtain ⟨⟨request, page, hmem, hr⟩, hsame⟩ := h
  exact ⟨⟨request, page, hsub hmem, hr⟩, hsame⟩

theorem FoundGone.mono (h : FoundGone log id) (hsub : log ⊆ log') : FoundGone log' id := by
  obtain ⟨e, hmem, he⟩ := h
  exact ⟨e, hsub hmem, he⟩

/-- What a log shows, a longer one shows as well. -/
theorem Turn.mono (h : Turn s log a w) (hsub : log ⊆ log') : Turn s log' a w := by
  cases h with
  | planned h =>
    cases h with
    | kept he hcore => exact .planned (.kept he hcore)
    | added he hid => exact .planned (.added he (hsub hid))
    | adopted he hr hvalue hcore => exact .planned (.adopted he (hr.mono hsub) hvalue hcore)
    | deleted => exact .planned .deleted
  | replaced he hgone hid => exact .replaced he (hgone.mono hsub) (hsub hid)

/-- The entry of an action that is to have a record exists. -/
def Action.InRange (s : RecordSet) : Action → Prop
  | .reconcile i _ _ _ _ _ => ∃ e, s.entries[i]? = some e
  | .create i => ∃ e, s.entries[i]? = some e
  | .delete _ _ => True

/-- An action that has not had its turn yet has work all the same. -/
theorem Action.InRange.exists_begun (h : a.InRange s) (log : List Exchange) :
    ∃ w, Begun s log a w := by
  cases a with
  | reconcile i id checkCore weight remark status =>
    obtain ⟨e, he⟩ := h
    exact ⟨_, .turn (.planned (.kept he (.inl rfl)))⟩
  | create i =>
    obtain ⟨e, he⟩ := h
    exact ⟨_, .creating he⟩
  | delete i id => exact ⟨_, .turn (.planned .deleted)⟩

theorem exists_begun_all {actions : List Action} (h : ∀ a ∈ actions, a.InRange s)
    (log : List Exchange) : ∃ works, List.Forall₂ (Begun s log) actions works := by
  induction actions with
  | nil => exact ⟨[], .nil⟩
  | cons a rest ih =>
    obtain ⟨w, hw⟩ := (h a List.mem_cons_self).exists_begun log
    obtain ⟨works, hworks⟩ := ih fun b hb => h b (List.mem_cons_of_mem _ hb)
    exact ⟨w :: works, .cons hw hworks⟩

end

/-! ## Steps with known calls -/

section

variable {log : List Exchange}

theorem always_attempt {purpose : Attempt} {c : Call} {post : c.Reply → List Exchange → Prop}
    {err : LifecycleError → List Exchange → Prop} (hpost : ∀ a, post a (log ++ [⟨c, .ok a⟩]))
    (herr : ∀ e, err (.remote purpose e) (log ++ [⟨c, .error e⟩])) :
    (attempt purpose c).Always post err log :=
  Dialogue.always_mapError.mpr (Dialogue.always_call hpost herr)

theorem issues_attempt {c : Call} (hc : c.writes = true) (purpose : Attempt) :
    (attempt purpose c).Issues [c] fun _ => True := by
  intro log
  refine always_attempt ?_ ?_
  · intro a
    exact ⟨trivial, .write hc log _⟩
  · intro e
    exact ⟨[c], List.prefix_refl _, .write hc log _⟩

theorem issues_whenSome {α : Type} {a : Option α} {f : α → Operation Unit} {call : α → Call}
    (h : ∀ x, (f x).Issues [call x] fun _ => True) :
    (whenSome a f).Issues (a.map call).toList fun _ => True := by
  cases a with
  | none => exact Dialogue.issues_done trivial
  | some x => exact h x

theorem issues_dress (id : String) (remark : Option String) (status : Option Switch) :
    (dress id remark status).Issues
      ((remark.map (.setRemark id)).toList ++ (status.map (.setStatus id)).toList)
      fun _ => True :=
  (issues_whenSome fun _ => issues_attempt rfl _).bind fun _ _ =>
    issues_whenSome fun _ => issues_attempt rfl _

/-- The calls for the weights that wait. -/
def Lifecycle.Progress.waits (p : Progress) : List Call :=
  p.pending.map fun q => .setWeight q.1 q.2

theorem issues_weighPending (pending : List (String × UInt32)) :
    (weighPending pending).Issues (pending.map fun q => .setWeight q.1 q.2) fun _ => True := by
  induction pending with
  | nil => exact Dialogue.issues_done trivial
  | cons q rest ih =>
    have hfirst : (setWeight q.1 q.2).Issues [.setWeight q.1 q.2] fun _ => True :=
      issues_attempt rfl _
    exact hfirst.bind fun _ _ => ih

/-- What is done to a record once its core has been seen to. -/
theorem issues_touch (core : List Call) (deferred : Bool) (id : String) (weight : Option UInt32)
    (remark : Option String) (status : Option Switch) (p : Progress) :
    (touch deferred id weight remark status p).Issues
      ((if deferred then [] else (Work.on core id weight remark status).weight) ++
        (Work.on core id weight remark status).extras)
      fun p' => p'.known = p.known ∧ p'.waits =
        p.waits ++ (Work.on core id weight remark status).later deferred := by
  have hdress : ∀ p' : Progress, p'.known = p.known ∧ p'.waits =
      p.waits ++ (Work.on core id weight remark status).later deferred →
      (dress id remark status >>= fun _ => pure p').Issues
        (Work.on core id weight remark status).extras
        fun p' => p'.known = p.known ∧ p'.waits =
          p.waits ++ (Work.on core id weight remark status).later deferred := by
    intro p' hp'
    have hdone : (pure p' : Operation Progress).Issues [] fun p' => p'.known = p.known ∧
        p'.waits = p.waits ++ (Work.on core id weight remark status).later deferred :=
      Dialogue.issues_done hp'
    have h := (issues_dress id remark status).bind fun _ _ => hdone
    rwa [List.append_nil] at h
  unfold touch
  cases weight with
  | none =>
    have hnothing : (if deferred then [] else
        (Work.on core id none remark status).weight) = [] := by
      cases deferred <;> rfl
    rw [hnothing]
    refine hdress p ⟨rfl, ?_⟩
    cases deferred <;> exact (List.append_nil _).symm
  | some w =>
    unfold weigh
    cases deferred with
    | true =>
      refine hdress _ ⟨rfl, ?_⟩
      simp [Progress.waits, Work.later, Work.on]
    | false =>
      simp only [Bool.false_eq_true, if_false, Dialogue.bind_assoc]
      have hweight : (setWeight id w).Issues [.setWeight id w] fun _ => True :=
        issues_attempt rfl _
      refine hweight.bind fun _ _ => hdress p ⟨rfl, ?_⟩
      exact (List.append_nil _).symm

end

/-! ## Reading -/

section

variable {log : List Exchange}

/-- Every record that a walk returns stands on one of the pages that it has got. -/
theorem always_recordsFrom (domain : String) (query : RecordQuery) (pages : Nat)
    (request : PageRequest) (log : List Exchange) :
    (Remote.recordsFrom domain query pages request).Always
      (fun records log' => Extends log [] log' ∧ ∀ r ∈ records, ∃ request page,
        (⟨.listRecords domain query request, .ok page⟩ : Exchange) ∈ log' ∧ r ∈ page.items)
      (fun _ log' => Extends log [] log') log := by
  induction pages generalizing request log with
  | zero => exact ⟨.refl log, fun _ hr => nomatch hr⟩
  | succ pages ih =>
    rw [Remote.recordsFrom, Dialogue.always_bind]
    refine Dialogue.always_call ?_ ?_
    · intro page
      have hread := Extends.read (c := .listRecords domain query request) rfl log (.ok page)
      have hfirst : ∀ log', Extends (log ++ [⟨.listRecords domain query request, .ok page⟩]) []
          log' → ∀ r ∈ page.items, ∃ request page,
            (⟨.listRecords domain query request, .ok page⟩ : Exchange) ∈ log' ∧
              r ∈ page.items := by
        intro log' h r hr
        exact ⟨request, page, h.before (List.mem_append_right _ List.mem_cons_self), hr⟩
      split
      · exact ⟨hread, hfirst _ (.refl _)⟩
      · rw [Dialogue.always_bind]
        refine (ih _ _).mono ?_ ?_
        · rintro rest log' ⟨h, hrest⟩
          refine ⟨hread.trans h, ?_⟩
          intro r hr
          rcases List.mem_append.mp hr with hr | hr
          · exact hfirst log' h r hr
          · exact hrest r hr
        · intro e log' h
          exact hread.trans h
    · intro e
      exact .read rfl log _

/-- Listing leaves its records in the log. -/
theorem always_listed (s : RecordSet) (log : List Exchange) :
    (listed s).Always
      (fun known log' => Extends log [] log' ∧ ∀ r ∈ known, Listed s log' r)
      (fun _ log' => Extends log [] log') log := by
  unfold listed Remote.allRecords
  rw [Dialogue.always_bind, Dialogue.always_mapError]
  refine (always_recordsFrom _ _ _ _ log).mono ?_ ?_
  · rintro records log' ⟨h, hrecords⟩
    refine ⟨h, ?_⟩
    intro r hr
    simp only [List.mem_filter, Bool.and_eq_true, beq_iff_eq] at hr
    exact ⟨hrecords r hr.1, hr.2⟩
  · intro e log' h
    exact h

/-- Fetching only finds a record gone where the log says so. -/
theorem always_fetch? (id : String) (log : List Exchange) :
    (fetch? id).Always
      (fun found log' => Extends log [] log' ∧ (found = none → FoundGone log' id))
      (fun _ log' => Extends log [] log') log := by
  unfold fetch?
  rw [Dialogue.always_bind]
  intro r
  have hread := Extends.read (c := .describeRecord id) rfl log r
  cases r with
  | ok record => exact ⟨hread, fun h => nomatch h⟩
  | error e =>
    change Dialogue.Always _ _ (if e.cause.isNotFound then pure none
      else .fail (LifecycleError.remote (.readRecord id) e)) _
    split
    · rename_i hgone
      exact ⟨hread, fun _ => ⟨e, List.mem_append_right _ List.mem_cons_self, hgone⟩⟩
    · exact hread

end

/-! ## The record of an entry -/

section

variable {s : RecordSet} {e : Entry}

/-- A record comes to an entry: it is added, or it has been listed with the value of the entry. -/
inductive Comes (s : RecordSet) (e : Entry) (log : List Exchange) :
    List Call → String × Extras → Prop where
  | added {id : String} (hid : AddedAs s e log id) :
      Comes s e log [.addRecord (.of s e)] (id, .fresh)
  | adopted {r : StoredRecord} {core : List Call} (hr : Listed s log r)
      (hvalue : r.value = e.value) (hcore : core = [] ∨ core = [.changeRecord (.of s e r.id)]) :
      Comes s e log core (r.id, .of r)

theorem Comes.planned {log : List Exchange} {core : List Call} {found : String × Extras}
    (h : Comes s e log core found) {i : Nat} (he : s.entries[i]? = some e) :
    Planned s log (.create i) (.placing s e core found.1 found.2) := by
  cases h with
  | added hid => exact .added he hid
  | adopted hr hvalue hcore => exact .adopted he hr hvalue hcore

theorem always_add (s : RecordSet) (e : Entry) (log : List Exchange) :
    (add s e).Always
      (fun id log' => AddedAs s e log' id ∧ Extends log [.addRecord (.of s e)] log')
      (fun _ log' => Extends log [.addRecord (.of s e)] log') log := by
  refine always_attempt ?_ ?_
  · intro id
    exact ⟨List.mem_append_right _ List.mem_cons_self, .write rfl log _⟩
  · intro err
    exact .write rfl log _

theorem issues_overwrite (s : RecordSet) (e : Entry) (id : String) :
    (overwrite s e id).Issues [.changeRecord (.of s e id)] fun _ => True :=
  issues_attempt rfl _

/-- What is done for an entry before it has its record stays within the work of a turn. -/
theorem always_ensure {i : Nat} (he : s.entries[i]? = some e) {known : List StoredRecord}
    {log : List Exchange} (hknown : ∀ r ∈ known, Listed s log r) :
    (ensure s known e).Always
      (fun found log' => ∃ core, Comes s e log' core found ∧ Extends log core log')
      (fun _ log' => ∃ w, Begun s log' (.create i) w ∧ Extends log w.core log') log := by
  unfold ensure
  split
  · rename_i found hfind
    have hlisted := hknown found (List.mem_of_find?_eq_some hfind)
    have hvalue : found.value = e.value := by simpa using List.find?_some hfind
    have hplaced : ∀ {core log'}, (core = [] ∨ core = [.changeRecord (.of s e found.id)]) →
        Extends log core log' → Comes s e log' core (found.id, .of found) := fun hcore h =>
      .adopted (hlisted.mono h.before) hvalue hcore
    split
    · rw [Dialogue.always_bind]
      refine (issues_overwrite s e found.id log).mono ?_ ?_
      · rintro _ log' ⟨-, h⟩
        exact ⟨_, hplaced (.inr rfl) h, h⟩
      · rintro _ log' ⟨part, hpart, h⟩
        -- the call that failed is all there is of the work on the core
        have hcore : part = [] ∨ part = [.changeRecord (.of s e found.id)] := by
          rcases List.prefix_cons_iff.mp hpart with rfl | ⟨rest, rfl, hrest⟩
          · exact .inl rfl
          · rw [List.prefix_nil.mp hrest]
            exact .inr rfl
        exact ⟨_, .turn (.planned ((hplaced hcore h).planned he)), h⟩
    · exact ⟨[], hplaced (.inl rfl) (.refl log), .refl log⟩
  · rw [Dialogue.always_bind]
    refine (always_add s e log).mono ?_ ?_
    · rintro id log' ⟨hid, h⟩
      exact ⟨_, .added hid, h⟩
    · intro _ log' h
      exact ⟨_, .creating he, h⟩

end

/-! ## Turns of actions -/

section

variable {s : RecordSet} {deferred : Bool} {p : Progress} {log : List Exchange} {e : Entry}
  {i : Nat}

/-- The records that are known have been listed. -/
def Knows (s : RecordSet) (p : Progress) (log : List Exchange) : Prop :=
  ∀ known, p.known = some known → ∀ r ∈ known, Listed s log r

theorem Knows.mono {p' : Progress} {log' : List Exchange} (h : Knows s p log)
    (hsame : p'.known = p.known) (hsub : log ⊆ log') : Knows s p' log' := by
  intro known hknown r hr
  rw [hsame] at hknown
  exact (h known hknown r hr).mono hsub

/-- From a log on, an action has had its turn. -/
def TurnTaken (s : RecordSet) (deferred : Bool) (a : Action) (p : Progress) (log : List Exchange)
    (p' : Progress) (log' : List Exchange) : Prop :=
  ∃ w, Turn s log' a w ∧ Extends log (w.now deferred) log' ∧
    p'.waits = p.waits ++ w.later deferred ∧ Knows s p' log'

/-- From a log on, the turn of an action has been stopped at one of its calls. -/
def TurnStopped (s : RecordSet) (deferred : Bool) (a : Action) (log log' : List Exchange) : Prop :=
  ∃ w part, Begun s log' a w ∧ part <+: w.now deferred ∧ Extends log part log'

/-- Once the core of a record has been seen to, its turn goes on with weight, remark and
status. -/
theorem always_touch {a : Action} {core : List Call} {id : String} {weight : Option UInt32}
    {remark : Option String} {status : Option Switch} {log₁ : List Exchange} {p₁ : Progress}
    (hturn : Turn s log₁ a (.on core id weight remark status)) (hcore : Extends log core log₁)
    (hknows : Knows s p₁ log₁) (hwaits : p₁.waits = p.waits) :
    (touch deferred id weight remark status p₁).Always (TurnTaken s deferred a p log)
      (fun _ => TurnStopped s deferred a log) log₁ := by
  refine (issues_touch core deferred id weight remark status p₁ log₁).mono ?_ ?_
  · rintro p' log' ⟨⟨hknown, hwaits'⟩, h⟩
    refine ⟨_, hturn.mono h.before, hcore.trans h, ?_, hknows.mono hknown h.before⟩
    rw [hwaits', hwaits]
  · rintro _ log' ⟨part, hpart, h⟩
    exact ⟨_, core ++ part, .turn (hturn.mono h.before),
      (List.prefix_append_right_inj core).mpr hpart, hcore.trans h⟩

theorem always_reconcileCore (he : s.entries[i]? = some e) (id : String) (checkCore : Bool)
    (weight : Option UInt32) (remark : Option String) (status : Option Switch)
    (log : List Exchange) :
    (reconcileCore s e id checkCore).Always
      (fun replaced log' =>
        match replaced with
        | none => ∃ core, Planned s log' (.reconcile i id checkCore weight remark status)
            (.on core id weight remark status) ∧ Extends log core log'
        | some newId => Turn s log' (.reconcile i id checkCore weight remark status)
            (.placing s e [.addRecord (.of s e)] newId .fresh) ∧
          Extends log [.addRecord (.of s e)] log')
      (fun _ => TurnStopped s deferred (.reconcile i id checkCore weight remark status) log)
      log := by
  have hkept : ∀ {core log'}, (core = [] ∨
      (checkCore = true ∧ core = [.changeRecord (.of s e id)])) →
      Planned s log' (.reconcile i id checkCore weight remark status)
        (.on core id weight remark status) := fun hcore => .kept he hcore
  -- whatever has been called so far belongs to the core of a record that is kept
  have hstopped : ∀ {core part log'}, (core = [] ∨
      (checkCore = true ∧ core = [.changeRecord (.of s e id)])) → part <+: core →
      Extends log part log' →
      TurnStopped s deferred (.reconcile i id checkCore weight remark status) log log' :=
    fun hcore hpart h =>
      ⟨_, _, .turn (.planned (hkept hcore)), hpart.trans (List.prefix_append _ _), h⟩
  unfold reconcileCore
  rw [Dialogue.always_bind]
  refine (always_fetch? id log).mono ?_ ?_
  · rintro found log₁ ⟨h₁, hgone⟩
    cases found with
    | some stored =>
      dsimp only
      split
      · rename_i hcheck
        have hchecked : checkCore = true := by simp_all
        rw [Dialogue.always_bind]
        refine (issues_overwrite s e id log₁).mono ?_ ?_
        · rintro _ log' ⟨-, h⟩
          exact ⟨_, hkept (.inr ⟨hchecked, rfl⟩), h₁.trans h⟩
        · rintro _ log' ⟨part, hpart, h⟩
          exact hstopped (.inr ⟨hchecked, rfl⟩) hpart (h₁.trans h)
      · exact ⟨[], hkept (.inl rfl), h₁⟩
    | none =>
      dsimp only
      rw [Dialogue.always_bind]
      refine (always_add s e log₁).mono ?_ ?_
      · rintro newId log' ⟨hid, h⟩
        exact ⟨.replaced he ((hgone rfl).mono h.before) hid, h₁.trans h⟩
      · intro _ log' h
        exact ⟨_, _, .replacing he ((hgone rfl).mono h.before), List.prefix_append _ _,
          h₁.trans h⟩
  · intro _ log' h
    exact hstopped (.inl rfl) (List.prefix_refl _) h

theorem always_runReconcile (he : s.entries[i]? = some e) (id : String) (checkCore : Bool)
    (weight : Option UInt32) (remark : Option String) (status : Option Switch)
    (hknows : Knows s p log) :
    (runReconcile s deferred e i id checkCore weight remark status p).Always
      (TurnTaken s deferred (.reconcile i id checkCore weight remark status) p log)
      (fun _ => TurnStopped s deferred (.reconcile i id checkCore weight remark status) log)
      log := by
  rw [runReconcile_eq, Dialogue.always_bind]
  refine (always_reconcileCore he id checkCore weight remark status log).mono ?_ fun _ _ h => h
  intro replaced log₁ h
  cases replaced with
  | none =>
    obtain ⟨core, hplanned, h₁⟩ := h
    exact always_touch (.planned hplanned) h₁ (hknows.mono rfl h₁.before) rfl
  | some newId =>
    obtain ⟨hturn, h₁⟩ := h
    exact always_touch hturn h₁ (hknows.mono rfl h₁.before) rfl

theorem always_runCreate (he : s.entries[i]? = some e) (hknows : Knows s p log) :
    (runCreate s deferred e p).Always (TurnTaken s deferred (.create i) p log)
      (fun _ => TurnStopped s deferred (.create i) log) log := by
  -- once the records are known, whether they have just been listed or before
  have hgoes : ∀ known log₁, Extends log [] log₁ → (∀ r ∈ known, Listed s log₁ r) →
      (ensure s known e >>= fun found =>
        touch deferred found.1 (startingWeight s e) (missingRemark e found.2)
          (missingStatus e found.2) { p with known := some known } >>= fun p =>
        pure { p with ids := p.ids ++ [found.1] }).Always (TurnTaken s deferred (.create i) p log)
        (fun _ => TurnStopped s deferred (.create i) log) log₁ := by
    intro known log₁ h₁ hknown
    rw [Dialogue.always_bind]
    refine (always_ensure he hknown).mono ?_ ?_
    · rintro found log₂ ⟨core, hcomes, h₂⟩
      have hturn : Turn s log₂ (.create i) (.placing s e core found.1 found.2) :=
        .planned (hcomes.planned he)
      have hknows₂ : Knows s { p with known := some known } log₂ := by
        intro known' hsame r hr
        obtain rfl : known = known' := Option.some.inj hsame
        exact (hknown r hr).mono h₂.before
      rw [Dialogue.always_bind]
      refine (always_touch hturn (h₁.trans h₂) hknows₂ rfl).mono ?_ fun _ _ h => h
      exact fun _ _ h => h
    · rintro _ log' ⟨w, hw, h⟩
      exact ⟨w, w.core, hw, List.prefix_append _ _, h₁.trans h⟩
  rw [runCreate_eq]
  cases hknown : p.known with
  | some known => exact hgoes known log (.refl log) (hknows known hknown)
  | none =>
    dsimp only
    rw [Dialogue.always_bind]
    refine (always_listed s log).mono ?_ ?_
    · rintro known log₁ ⟨h₁, hlisted⟩
      exact hgoes known log₁ h₁ hlisted
    · intro _ log' h
      exact ⟨_, [], .creating he, List.nil_prefix, h⟩

theorem issues_deleteOne (id : String) :
    (deleteOne id).Issues [.deleteRecord id] fun _ => True := by
  intro log
  unfold deleteOne
  rw [Dialogue.always_bind]
  intro r
  have hwrite := Extends.write (c := .deleteRecord id) rfl log r
  cases r with
  | ok _ => exact ⟨trivial, hwrite⟩
  | error e =>
    change Dialogue.Always _ _ (if e.cause.isNotFound then pure ()
      else .fail (LifecycleError.remote (.deleteRecord id) e)) _
    split
    · exact ⟨trivial, hwrite⟩
    · exact ⟨_, List.prefix_refl _, hwrite⟩

/-- Whatever the service answers, an action makes the calls of its turn. -/
theorem always_runAction {a : Action} (ha : a.InRange s) (hknows : Knows s p log) :
    (runAction s deferred p a).Always (TurnTaken s deferred a p log)
      (fun _ => TurnStopped s deferred a log) log := by
  cases a with
  | reconcile i id checkCore weight remark status =>
    obtain ⟨e, he⟩ := ha
    rw [runAction, he]
    exact always_runReconcile he id checkCore weight remark status hknows
  | create i =>
    obtain ⟨e, he⟩ := ha
    rw [runAction, he]
    split
    · exact ⟨_, [], .creating he, List.nil_prefix, .refl log⟩
    · exact always_runCreate he hknows
  | delete i id =>
    rw [runAction, Dialogue.always_bind]
    refine (issues_deleteOne id log).mono ?_ ?_
    · rintro _ log' ⟨-, h⟩
      refine ⟨_, .planned .deleted, ?_, ?_, hknows.mono rfl h.before⟩
      · cases deferred <;> exact h
      · cases deferred <;> exact (List.append_nil _).symm
    · rintro _ log' ⟨part, hpart, h⟩
      exact ⟨_, part, .turn (.planned .deleted), hpart.trans (List.prefix_append _ _), h⟩

/-- Whatever the service answers, the actions make the calls of their turns in their order, and an
error stops them at one of the calls. -/
theorem always_runActions {actions : List Action} (hrange : ∀ a ∈ actions, a.InRange s)
    (hknows : Knows s p log) :
    (runActions s deferred p actions).Always
      (fun p' log' => ∃ works, List.Forall₂ (Turn s log') actions works ∧
        Extends log (works.flatMap (·.now deferred)) log' ∧
        p'.waits = p.waits ++ works.flatMap (·.later deferred))
      (fun _ log' => ∃ works part, List.Forall₂ (Begun s log') actions works ∧
        part <+: works.flatMap (·.now deferred) ∧ Extends log part log') log := by
  -- by induction on the actions: the turns of the rest begin where that of the first one ends
  induction actions generalizing p log with
  | nil => exact ⟨[], .nil, .refl log, (List.append_nil _).symm⟩
  | cons a rest ih =>
    have hrest : ∀ b ∈ rest, b.InRange s := fun b hb => hrange b (List.mem_cons_of_mem _ hb)
    rw [runActions, Dialogue.always_bind]
    refine (always_runAction (hrange a List.mem_cons_self) hknows).mono ?_ ?_
    · rintro p₁ log₁ ⟨w, hturn, h₁, hwaits₁, hknows₁⟩
      refine (ih hrest hknows₁).mono ?_ ?_
      · rintro p' log' ⟨works, hturns, h', hwaits'⟩
        refine ⟨w :: works, .cons (hturn.mono h'.before) hturns, ?_, ?_⟩
        · rw [List.flatMap_cons]
          exact h₁.trans h'
        · rw [hwaits', hwaits₁, List.flatMap_cons, List.append_assoc]
      · rintro _ log' ⟨works, part, hbegun, hpart, h'⟩
        refine ⟨w :: works, w.now deferred ++ part,
          .cons (.turn (hturn.mono h'.before)) hbegun, ?_, h₁.trans h'⟩
        rw [List.flatMap_cons]
        exact (List.prefix_append_right_inj _).mpr hpart
    · rintro _ log' ⟨w, part, hbegun, hpart, h'⟩
      obtain ⟨works, hworks⟩ := exists_begun_all hrest log'
      refine ⟨w :: works, part, .cons hbegun hworks, ?_, h'⟩
      rw [List.flatMap_cons]
      exact hpart.trans (List.prefix_append _ _)

end

end WeightedDns
