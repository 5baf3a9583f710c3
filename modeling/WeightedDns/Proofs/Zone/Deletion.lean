import WeightedDns.Proofs.Zone.Faithful

/-!
# Deleting records

Deleting the records of a set takes exactly these out of a zone, with one call for each that is
there (`run_deleteAll`), so that deleting them again does nothing. Whoever answers, the records are
asked for in order, and the first answer that neither deletes a record nor says that it is gone is
the last one (`transcript_deleteAll_iff`).
-/

namespace WeightedDns

open Lifecycle

/-! ## In a zone -/

namespace Zone

variable {z : Zone} {id : String} {ids : List String}

/-- The IDs that have a record, each where it stands first. -/
def standing (z : Zone) (ids : List String) : List String :=
  (ids.filter fun id => (z.record? id).isSome).eraseDups

/-- The zone after records have been deleted from it. -/
def purged (z : Zone) (ids : List String) : Zone :=
  { z with
    records := z.records.filter fun r => r.id ∉ ids
    journal := z.journal ++ (z.standing ids).map .deleteRecord }

@[simp] theorem purged_nil (z : Zone) : z.purged [] = z := by
  simp [purged, standing]

theorem standing_of_gone (h : ∀ id ∈ ids, z.record? id = none) : z.standing ids = [] := by
  have hnone : ids.filter (fun id => (z.record? id).isSome) = [] := by
    rw [List.filter_eq_nil_iff]
    intro id hid
    simp [h id hid]
  rw [standing, hnone]
  rfl

/-- Where none of the records is there, nothing is deleted. -/
theorem purged_of_gone (h : ∀ id ∈ ids, z.record? id = none) : z.purged ids = z := by
  have hall : (z.records.filter fun r => r.id ∉ ids) = z.records := by
    rw [List.filter_eq_self]
    intro r hr
    rw [decide_eq_true_eq]
    intro hid
    exact record?_eq_none_iff.mp (h r.id hid) r hr rfl
  rw [purged, hall, standing_of_gone h, List.map_nil, List.append_nil]

theorem record?_purged (z : Zone) {ids : List String} (hid : id ∈ ids) :
    (z.purged ids).record? id = none := by
  rw [record?_eq_none_iff]
  rintro r hr rfl
  exact of_decide_eq_true (List.mem_filter.mp hr).2 hid

/-- A record that is not there makes no difference. -/
theorem purged_cons_of_gone (h : z.record? id = none) (ids : List String) :
    z.purged (id :: ids) = z.purged ids := by
  have hrecords : (z.records.filter fun r => r.id ∉ id :: ids) =
      z.records.filter fun r => r.id ∉ ids := by
    refine List.filter_congr ?_
    intro r hr
    have hne := record?_eq_none_iff.mp h r hr
    simp [hne]
  have hstanding : z.standing (id :: ids) = z.standing ids := by
    rw [standing, List.filter_cons_of_neg (by simp [h])]
    rfl
  rw [purged, hrecords, hstanding]
  rfl

/-- Deleting a record, and then others, is deleting all of them: its own ID is not found again. -/
theorem purged_cons_of_there (h : (z.record? id).isSome) (ids : List String) :
    z.purged (id :: ids) = ((z.remove id).note (.deleteRecord id)).purged ids := by
  have hrecords : (z.records.filter fun r => r.id ∉ id :: ids) =
      (z.records.filter (·.id != id)).filter fun r => r.id ∉ ids := by
    rw [List.filter_filter]
    refine List.filter_congr ?_
    intro r _
    by_cases hr : r.id = id <;> simp [hr]
  have hothers : ids.filter (fun i => ((z.remove id).record? i).isSome) =
      (ids.filter fun i => (z.record? i).isSome).filter fun i => !i == id := by
    rw [List.filter_filter]
    refine List.filter_congr ?_
    intro i _
    rw [record?_remove]
    by_cases hi : i = id <;> simp [hi]
  have hstanding : z.standing (id :: ids) = id :: (z.remove id).standing ids := by
    rw [standing, List.filter_cons, if_pos h, List.eraseDups_cons, standing, hothers]
  unfold purged
  rw [hrecords, hstanding, List.map_cons, ← List.singleton_append, ← List.append_assoc]
  rfl

theorem run_deleteOne (calm : z.failures = []) (id : String) :
    (deleteOne id).run remote z =
      (.ok (), if (z.record? id).isSome then (z.remove id).note (.deleteRecord id) else z) := by
  have hanswer : remote.answer (.deleteRecord id) z = z.perform (.deleteRecord id) :=
    answer_of_allows (lookup_failures_eq_none calm _)
  unfold deleteOne Dialogue.answerOf
  rw [Dialogue.ask_bind, Dialogue.run, hanswer, perform]
  split <;> rfl

/-- While nothing fails, deleting records takes exactly these out of a zone. -/
theorem run_deleteAll (calm : z.failures = []) (ids : List String) :
    (deleteAll ids).run remote z = (.ok (), z.purged ids) := by
  induction ids generalizing z with
  | nil => rw [purged_nil]; rfl
  | cons id ids ih =>
    rw [deleteAll, Dialogue.run_bind, run_deleteOne calm]
    dsimp only
    split
    · rename_i hthere
      rw [purged_cons_of_there hthere]
      exact ih calm
    · rename_i hgone
      rw [purged_cons_of_gone (by simpa using hgone)]
      exact ih calm

end Zone

/-! ## Whoever answers -/

section

variable {id : String} {ids : List String} {log : List Exchange}
  {result : Except LifecycleError Unit}

/-- The exchange lets the deletion of a record pass: the record has been deleted now, or the answer
says that it is gone. -/
inductive Exchange.Deletes (id : String) : Exchange → Prop where
  | deleted : Deletes id ⟨.deleteRecord id, .ok ()⟩
  | gone {e : ServiceError} (h : e.cause.isNotFound = true) :
    Deletes id ⟨.deleteRecord id, .error e⟩

/-- A deletion asks for its record once, and what is neither a deletion nor the word that it is gone
is an error that names it. -/
theorem transcript_deleteOne_iff :
    (deleteOne id).Transcript log result ↔
      (∃ x : Exchange, x.Deletes id ∧ log = [x] ∧ result = .ok ()) ∨
      (∃ e, e.cause.isNotFound = false ∧ log = [⟨.deleteRecord id, .error e⟩] ∧
        result = .error (.remote (.deleteRecord id) e)) := by
  unfold deleteOne Dialogue.answerOf
  simp only [Dialogue.ask_bind, Dialogue.done_bind]
  constructor
  · intro h
    cases h with
    | @ask _ _ answer _ _ rest =>
      cases answer with
      | ok u =>
        cases rest
        exact .inl ⟨_, .deleted, rfl, rfl⟩
      | error e =>
        cases hgone : e.cause.isNotFound <;> simp only [hgone] at rest <;> cases rest
        · exact .inr ⟨e, hgone, rfl, rfl⟩
        · exact .inl ⟨_, .gone hgone, rfl, rfl⟩
  · rintro (⟨x, hx, rfl, rfl⟩ | ⟨e, hother, rfl, rfl⟩)
    · cases hx with
      | deleted => exact .ask (.done ())
      | gone hgone =>
        refine .ask ?_
        simp only [hgone]
        exact .done ()
    · refine .ask ?_
      simp only [hother]
      exact .fail _

/-- Records are asked for in order, each once: either every one of them passes, or the first that
does not ends the deletion with an error that names it. -/
theorem transcript_deleteAll_iff :
    (deleteAll ids).Transcript log result ↔
      (List.Forall₂ Exchange.Deletes ids log ∧ result = .ok ()) ∨
      (∃ asked id left passed e, ids = asked ++ id :: left ∧
        List.Forall₂ Exchange.Deletes asked passed ∧ e.cause.isNotFound = false ∧
        log = passed ++ [⟨.deleteRecord id, .error e⟩] ∧
        result = .error (.remote (.deleteRecord id) e)) := by
  induction ids generalizing log with
  | nil =>
    rw [deleteAll]
    constructor
    · rintro ⟨⟩
      exact .inl ⟨.nil, rfl⟩
    · rintro (⟨⟨⟩, rfl⟩ | ⟨asked, id, left, passed, e, hids, -⟩)
      · exact .done ()
      · cases asked <;> cases hids
  | cons id ids ih =>
    rw [deleteAll, Dialogue.transcript_bind_iff]
    constructor
    · rintro (⟨u, log₁, log₂, hfirst, hrest, rfl⟩ | ⟨e, hfirst, rfl⟩)
      · rcases transcript_deleteOne_iff.mp hfirst with ⟨x, hx, rfl, -⟩ | ⟨e, -, -, herror⟩
        · rcases ih.mp hrest with ⟨hall, rfl⟩ |
            ⟨asked, id', left, passed, e, rfl, hpassed, hother, rfl, rfl⟩
          · exact .inl ⟨.cons hx hall, rfl⟩
          · exact .inr ⟨id :: asked, id', left, x :: passed, e, rfl, .cons hx hpassed, hother, rfl,
              rfl⟩
        · cases herror
      · rcases transcript_deleteOne_iff.mp hfirst with ⟨_, -, -, hok⟩ | ⟨e', hother, rfl, herror⟩
        · cases hok
        · cases herror
          exact .inr ⟨[], id, ids, [], e', rfl, .nil, hother, rfl, rfl⟩
    · rintro (⟨hall, rfl⟩ | ⟨asked, id', left, passed, e, hids, hpassed, hother, rfl, rfl⟩)
      · cases hall with
        | cons hx hall =>
          exact .inl ⟨(), [_], _, transcript_deleteOne_iff.mpr (.inl ⟨_, hx, rfl, rfl⟩),
            ih.mpr (.inl ⟨hall, rfl⟩), rfl⟩
      · cases hpassed with
        | nil =>
          cases hids
          exact .inr ⟨_, transcript_deleteOne_iff.mpr (.inr ⟨e, hother, rfl, rfl⟩), rfl⟩
        | cons hx hpassed =>
          obtain ⟨rfl, rfl⟩ := List.cons.inj hids
          exact .inl ⟨(), [_], _, transcript_deleteOne_iff.mpr (.inl ⟨_, hx, rfl, rfl⟩),
            ih.mpr (.inr ⟨_, id', left, _, e, rfl, hpassed, hother, rfl, rfl⟩), rfl⟩

/-- Deleting a set takes exactly its records out of a zone in which nothing fails, each with one
call, and deleting it again does nothing. Whoever answers, the records are asked for in order until
an answer neither deletes one nor says that it is gone; the error names that one. -/
theorem delete_outcome (id : ResourceId) :
    (∀ z : Zone, z.failures = [] →
      (delete id).run Zone.remote z = (.ok (), z.purged id.ids) ∧
      (delete id).run Zone.remote (z.purged id.ids) = (.ok (), z.purged id.ids)) ∧
    ∀ log result, (delete id).Transcript log result ↔
      (List.Forall₂ Exchange.Deletes id.ids log ∧ result = .ok ()) ∨
      (∃ asked i left passed e, id.ids = asked ++ i :: left ∧
        List.Forall₂ Exchange.Deletes asked passed ∧ e.cause.isNotFound = false ∧
        log = passed ++ [⟨.deleteRecord i, .error e⟩] ∧
        result = .error (.remote (.deleteRecord i) e)) := by
  refine ⟨?_, fun log result => transcript_deleteAll_iff⟩
  intro z calm
  refine ⟨Zone.run_deleteAll calm id.ids, ?_⟩
  have hagain : (z.purged id.ids).purged id.ids = z.purged id.ids :=
    Zone.purged_of_gone fun i hi => Zone.record?_purged z hi
  have calm' : (z.purged id.ids).failures = [] := calm
  exact (Zone.run_deleteAll calm' id.ids).trans (by rw [hagain])

end

/-! ### A record that is tracked twice -/

/-- The error of a deletion that is not allowed for now. -/
def tooMany : ServiceError := ⟨Zone.provider, .quotaExceeded none⟩

theorem leaning_purged :
    (delete ⟨["1001", "1002", "1001"]⟩).run Zone.remote Zone.leaning =
        (.ok (), Zone.leaning.purged ["1001", "1002", "1001"]) ∧
      (delete ⟨["1001", "1002", "1001"]⟩).Transcript
        [⟨.deleteRecord "1001", .ok ()⟩, ⟨.deleteRecord "1002", .error tooMany⟩]
        (.error (.remote (.deleteRecord "1002") tooMany)) := by
  obtain ⟨hzone, hlog⟩ := delete_outcome ⟨["1001", "1002", "1001"]⟩
  refine ⟨(hzone Zone.leaning rfl).1, (hlog _ _).mpr (.inr ?_)⟩
  exact ⟨["1001"], "1002", ["1001"], [⟨.deleteRecord "1001", .ok ()⟩], tooMany, rfl,
    .cons .deleted .nil, rfl, rfl, rfl⟩

end WeightedDns
