import Mathlib.Data.List.Forall2
import Mathlib.Data.List.ReduceOption
import WeightedDns.Proofs.Wire.Delivery
import WeightedDns.Proofs.Zone.Reading
import WeightedDns.Wire.Script

/-!
# Records that count as gone

Reading leaves out a record and deleting passes over one only if the last delivery for it says that
it is gone (`gone_only_if_reported`). What is read is tracked under the ID that the service
answers, which nothing compares with the one that was asked for.
-/

namespace WeightedDns

open Lifecycle

namespace Wire

variable {τ : Type} {client : Client} {transport : Transport τ} {s s' : τ} {id : String}

/-- What a delivery makes of a look for a record: a record, or none if it is gone. -/
inductive Delivery.Finds (id : String) (d : Delivery) : Option StoredRecord → Prop where
  | gone (h : d.ReportsGone) : Finds id d none
  | record {r : StoredRecord} (h : d.Grants (.describeRecord id) r) : Finds id d (some r)

/-- The delivery lets a deletion pass: the record is gone, or has been deleted now. -/
def Delivery.Settles (id : String) (d : Delivery) : Prop :=
  d.ReportsGone ∨ d.Grants (.deleteRecord id) ()

/-! ## Reading -/

theorem asks_fetch? (remote : Remote τ) (id : String) (s : τ) :
    (fetch? id).asks remote s = [(.describeRecord id, s)] := by
  refine Dialogue.asks_answerOf_bind _ fun answer s => ?_
  cases answer with
  | ok r => rfl
  | error e =>
    dsimp only
    split <;> rfl

theorem finds_of_run_fetch? {found : Option StoredRecord}
    (hrun : (fetch? id).run (client.remote transport) s = (.ok found, s')) :
    (client.deliveryFor transport (.describeRecord id) s).Finds id found := by
  unfold fetch? Dialogue.answerOf at hrun
  rw [Dialogue.ask_bind, Dialogue.run, Dialogue.done_bind, Client.answer_remote] at hrun
  cases hanswer : (client.deliveryFor transport (.describeRecord id) s).answer
      (.describeRecord id) with
  | ok r =>
    rw [hanswer] at hrun
    obtain ⟨hvalue, -⟩ := Prod.mk.inj hrun
    rw [← Except.ok.inj hvalue]
    exact .record ((Delivery.answer_eq_ok_iff _ _ r).mp hanswer)
  | error e =>
    rw [hanswer] at hrun
    dsimp only at hrun
    split at hrun
    · rename_i hgone
      obtain ⟨hvalue, -⟩ := Prod.mk.inj hrun
      rw [← Except.ok.inj hvalue]
      exact .gone ((Delivery.isNotFound_answer_iff _ _).mp ⟨e, hanswer, hgone⟩)
    · cases hrun

/-- Records are asked for in order, and each is left out or kept as the last delivery for it
says. -/
theorem exists_looks_of_run_fetchAll {ids : List String} {records : List StoredRecord}
    (hrun : (fetchAll ids).run (client.remote transport) s = (.ok records, s')) :
    ∃ (asked : List (String × τ)) (found : List (Option StoredRecord)),
      asked.map (·.1) = ids ∧
      (fetchAll ids).asks (client.remote transport) s =
        asked.map (fun x => (.describeRecord x.1, x.2)) ∧
      List.Forall₂ (fun x r => (client.deliveryFor transport (.describeRecord x.1) x.2).Finds x.1 r)
        asked found ∧
      records = found.reduceOption := by
  induction ids generalizing s s' records with
  | nil =>
    obtain ⟨hvalue, -⟩ := Prod.mk.inj hrun
    rw [← Except.ok.inj hvalue]
    exact ⟨[], [], rfl, rfl, .nil, rfl⟩
  | cons id ids ih =>
    obtain ⟨first, s₁, hfirst, hrest⟩ := Dialogue.exists_run_of_bind hrun
    obtain ⟨others, s₂, hothers, hvalue⟩ := Dialogue.exists_run_of_bind hrest
    obtain ⟨asked, found, hids, hasks, hfinds, rfl⟩ := ih hothers
    refine ⟨(id, s) :: asked, first :: found, ?_, ?_, .cons (finds_of_run_fetch? hfirst) hfinds, ?_⟩
    · rw [List.map_cons, hids]
    · rw [fetchAll, Dialogue.asks_bind_of_run hfirst, Dialogue.asks_bind_of_run hothers,
        asks_fetch?, hasks]
      simp [Dialogue.asks]
    · obtain ⟨hvalue, -⟩ := Prod.mk.inj hvalue
      rw [← Except.ok.inj hvalue]
      cases first <;> rfl

/-- What is read is the set of the records that are found. -/
theorem ids_of_run_read? {id : ResourceId} {domain : String} {t : Option TrackedSet}
    {remote : Remote τ} (hrun : (read? id domain).run remote s = (.ok t, s')) :
    ∃ records s₁, (fetchAll id.ids).run remote s = (.ok records, s₁) ∧
      t.elim [] (·.id.ids) = records.map (·.id) := by
  obtain ⟨records, s₁, hrecords, hrest⟩ := Dialogue.exists_run_of_bind hrun
  refine ⟨records, s₁, hrecords, ?_⟩
  split at hrest
  · rename_i hnone
    obtain ⟨hvalue, -⟩ := Prod.mk.inj hrest
    rw [← Except.ok.inj hvalue, List.isEmpty_iff.mp hnone]
    rfl
  · obtain ⟨t', s₂, hset, hvalue⟩ := Dialogue.exists_run_of_bind hrest
    obtain ⟨hvalue, -⟩ := Prod.mk.inj hvalue
    rw [← Except.ok.inj hvalue]
    exact ids_of_run_assemble hset

/-! ## Deleting -/

theorem asks_deleteOne (remote : Remote τ) (id : String) (s : τ) :
    (deleteOne id).asks remote s = [(.deleteRecord id, s)] := by
  refine Dialogue.asks_answerOf_bind _ fun answer s => ?_
  cases answer with
  | ok _ => rfl
  | error e =>
    dsimp only
    split <;> rfl

/-- A deletion passes exactly if the last delivery for it lets it pass. -/
theorem run_deleteOne_eq_ok_iff :
    ((deleteOne id).run (client.remote transport) s).1 = .ok () ↔
      (client.deliveryFor transport (.deleteRecord id) s).Settles id := by
  have hgone := (client.deliveryFor transport (.deleteRecord id) s).isNotFound_answer_iff
    (.deleteRecord id)
  have hdone := (client.deliveryFor transport (.deleteRecord id) s).answer_eq_ok_iff
    (.deleteRecord id) ()
  unfold deleteOne Dialogue.answerOf
  rw [Dialogue.ask_bind, Dialogue.run, Dialogue.done_bind, Client.answer_remote,
    Delivery.Settles, ← hgone, ← hdone]
  cases (client.deliveryFor transport (.deleteRecord id) s).answer (.deleteRecord id) with
  | ok _ => exact iff_of_true rfl (.inr rfl)
  | error e =>
    dsimp only
    split
    · rename_i hnotFound
      exact iff_of_true rfl (.inl ⟨e, rfl, hnotFound⟩)
    · rename_i hfound
      refine iff_of_false (by rintro ⟨⟩) ?_
      rintro (⟨e', he, hnotFound⟩ | h)
      · obtain rfl := Except.error.inj he
        exact hfound hnotFound
      · cases h

/-- Deletions are made in order up to the first one that does not pass. -/
theorem exists_asks_deleteAll (client : Client) (transport : Transport τ) (ids : List String)
    (s : τ) :
    ∃ asked : List (String × τ),
      (deleteAll ids).asks (client.remote transport) s =
        asked.map (fun x => (.deleteRecord x.1, x.2)) ∧
      asked.map (·.1) <+: ids ∧
      (∀ x ∈ asked.dropLast,
        (client.deliveryFor transport (.deleteRecord x.1) x.2).Settles x.1) ∧
      (((deleteAll ids).run (client.remote transport) s).1 = .ok () ↔
        asked.map (·.1) = ids ∧
          ∀ x ∈ asked, (client.deliveryFor transport (.deleteRecord x.1) x.2).Settles x.1) := by
  -- by induction on the IDs: one that passes is followed by the others, any other is the last
  induction ids generalizing s with
  | nil =>
    refine ⟨[], rfl, List.nil_prefix, ?_, ?_⟩
    · exact fun _ h => nomatch h
    · exact iff_of_true rfl ⟨rfl, fun _ h => nomatch h⟩
  | cons id ids ih =>
    rcases hfirst : (deleteOne id).run (client.remote transport) s with ⟨_ | _, s₁⟩
    · refine ⟨[(id, s)], ?_, ?_, ?_, ?_⟩
      · rw [deleteAll, Dialogue.asks_bind_of_fail hfirst, asks_deleteOne]
        rfl
      · exact ⟨ids, rfl⟩
      · exact fun _ h => nomatch h
      · have hstuck : ¬ (client.deliveryFor transport (.deleteRecord id) s).Settles id := by
          rw [← run_deleteOne_eq_ok_iff, hfirst]
          exact fun h => nomatch h
        rw [deleteAll, Dialogue.run_bind, hfirst]
        exact iff_of_false (fun h => nomatch h) fun h => hstuck (h.2 _ List.mem_cons_self)
    · have hsettles : (client.deliveryFor transport (.deleteRecord id) s).Settles id := by
        rw [← run_deleteOne_eq_ok_iff, hfirst]
      obtain ⟨asked, hasks, hids, hpassed, hrun⟩ := ih s₁
      refine ⟨(id, s) :: asked, ?_, ?_, ?_, ?_⟩
      · rw [deleteAll, Dialogue.asks_bind_of_run hfirst, asks_deleteOne, hasks]
        rfl
      · rw [List.map_cons]
        exact (List.prefix_cons_inj id).mpr hids
      · cases asked with
        | nil => exact fun _ h => nomatch h
        | cons x rest =>
          rw [List.dropLast_cons_cons, List.forall_mem_cons]
          exact ⟨hsettles, hpassed⟩
      · rw [deleteAll, Dialogue.run_bind, hfirst]
        dsimp only
        rw [hrun, List.forall_mem_cons, and_iff_right hsettles, List.map_cons, List.cons_inj_right]

/-- Reading leaves out a record, and deleting passes over one, only if the last delivery for it is
a reply that says that the record is gone. Otherwise the record that is delivered is kept, under
the ID that the reply names, and a record has been deleted by a reply that grants this; or else
there is an error and no set. -/
theorem gone_only_if_reported (client : Client) (transport : Transport τ) (id : ResourceId)
    (domain : String) (s : τ) :
    (∀ (t : Option TrackedSet) (s' : τ),
      (read? id domain).run (client.remote transport) s = (.ok t, s') →
      ∃ (asked : List (String × τ)) (found : List (Option StoredRecord)),
        asked.map (·.1) = id.ids ∧
        asked.map (fun x => (Call.describeRecord x.1, x.2)) <+:
          (read? id domain).asks (client.remote transport) s ∧
        List.Forall₂
          (fun x r => (client.deliveryFor transport (.describeRecord x.1) x.2).Finds x.1 r)
          asked found ∧
        t.elim [] (·.id.ids) = found.reduceOption.map (·.id)) ∧
    ∃ asked : List (String × τ),
      (delete id).asks (client.remote transport) s =
        asked.map (fun x => (.deleteRecord x.1, x.2)) ∧
      asked.map (·.1) <+: id.ids ∧
      (∀ x ∈ asked.dropLast,
        (client.deliveryFor transport (.deleteRecord x.1) x.2).Settles x.1) ∧
      (((delete id).run (client.remote transport) s).1 = .ok () ↔
        asked.map (·.1) = id.ids ∧
          ∀ x ∈ asked, (client.deliveryFor transport (.deleteRecord x.1) x.2).Settles x.1) := by
  refine ⟨?_, exists_asks_deleteAll client transport id.ids s⟩
  intro t s' hrun
  obtain ⟨records, s₁, hrecords, hids⟩ := ids_of_run_read? hrun
  obtain ⟨asked, found, hasked, hasks, hfinds, rfl⟩ := exists_looks_of_run_fetchAll hrecords
  refine ⟨asked, found, hasked, ?_, hfinds, hids⟩
  rw [← hasks]
  unfold read?
  rw [Dialogue.asks_bind_of_run hrecords]
  exact List.prefix_append _ _

/-- A service that answers looks for records one after another. -/
def answering (deliveries : List Delivery) : Script :=
  .start [("DescribeDomainRecordInfo", deliveries)]

/-- The set of the record that is reported with an ID. -/
def reportedSet (id : String) : TrackedSet :=
  ⟨⟨[id]⟩, ⟨"example.com", "www", .a, "default", none, .disabled,
    [⟨"192.0.2.1", 600, 1, .enabled, none⟩]⟩⟩

/-- A gateway fails, then the first record is said to be gone, and the second one is delivered. -/
def goneThenFound : Script := answering [
  .replied ⟨503, none, .ok ""⟩,
  .replied ⟨400, none, .ok "\x7b\"Code\":\"RecordNotExist\"\x7d"⟩,
  .replied ⟨200, none, .ok (recordText "2")⟩]

set_option maxRecDepth 10000 in
/-- One of two records is left out. -/
theorem gone_left_out :
    ∃ (s' : Script) (asked : List (String × Script)) (found : List (Option StoredRecord)),
      (read? ⟨["1", "2"]⟩ "example.com").run (keyClient.remote Script.transport) goneThenFound =
        (.ok (some (reportedSet "2")), s') ∧
      asked.map (·.1) = ["1", "2"] ∧
      List.Forall₂ (fun x r =>
        (keyClient.deliveryFor Script.transport (.describeRecord x.1) x.2).Finds x.1 r)
        asked found ∧
      ["2"] = found.reduceOption.map (·.id) := by
  have hresult : ((read? ⟨["1", "2"]⟩ "example.com").run (keyClient.remote Script.transport)
      goneThenFound).1 = .ok (some (reportedSet "2")) := by decide +kernel
  have hrun := Dialogue.run_eq_ok hresult
  obtain ⟨hread, -⟩ := gone_only_if_reported keyClient Script.transport ⟨["1", "2"]⟩ "example.com"
    goneThenFound
  obtain ⟨asked, found, hasked, -, hfinds, hids⟩ := hread _ _ hrun
  exact ⟨_, asked, found, hrun, hasked, hfinds, hids⟩

set_option maxRecDepth 10000 in
/-- The ID that is asked for is not kept where the reply names another one. -/
theorem asked_id_not_always_kept :
    ¬ ∀ (client : Client) (transport : Transport Script) (id : ResourceId) (domain : String)
        (s s' : Script) (t : TrackedSet),
      (read? id domain).run (client.remote transport) s = (.ok (some t), s') →
      ∀ (i : String) (u : Script),
        (Call.describeRecord i, u) ∈ (read? id domain).asks (client.remote transport) s →
        (client.deliveryFor transport (.describeRecord i) u).ReportsGone ∨ i ∈ t.id.ids := by
  intro h
  have hresult : ((read? ⟨["1"]⟩ "example.com").run (keyClient.remote Script.transport)
      (answering [.replied ⟨200, none, .ok (recordText "9")⟩])).1 =
        .ok (some (reportedSet "9")) := by decide +kernel
  have hanswer : ((keyClient.deliveryFor Script.transport (.describeRecord "1")
      (answering [.replied ⟨200, none, .ok (recordText "9")⟩])).answer
        (.describeRecord "1")).toOption.isSome = true := by decide +kernel
  rcases h keyClient Script.transport ⟨["1"]⟩ "example.com" _ _ _ (Dialogue.run_eq_ok hresult)
    "1" _ List.mem_cons_self with hgone | hkept
  · obtain ⟨e, herror, -⟩ := (Delivery.isNotFound_answer_iff _ (.describeRecord "1")).mpr hgone
    rw [herror] at hanswer
    cases hanswer
  · exact absurd hkept (by decide)

end Wire

end WeightedDns
