import WeightedDns.Proofs.Dialogue.Course
import WeightedDns.Proofs.Zone.Tidy

/-!
# What every call keeps

Whatever is asked of a zone, numbers are given out only once, what has been made to fail goes on
failing, and writing calls are noted one after the other (`Later`). By `ensures_later` this holds
of every dialogue, so no step has to say it again. A call that does not write leaves the zone as
it is (`answer_of_reads`).
-/

namespace WeightedDns

/-- The record that a call is to add. -/
def Call.added? : Call → Option NewRecord
  | .addRecord r => some r
  | _ => none

namespace Zone

/-- The records that calls have added. -/
def added (z : Zone) : List NewRecord := z.journal.filterMap Call.added?

theorem added_note (z : Zone) (c : Call) : (z.note c).added = z.added ++ c.added?.toList := by
  rw [added, note, List.filterMap_append]
  cases h : c.added? <;> simp [added, h]

/-- The second zone has come from the first by calls. -/
structure Later (z z' : Zone) : Prop where
  tidy : z'.Tidy
  nextId : z.nextId ≤ z'.nextId
  came : ∀ id, z.record? id = none → (z'.record? id).isSome →
    ∃ n, z.nextId ≤ n ∧ n < z'.nextId ∧ id = toString n
  journal : z.journal <+: z'.journal
  failures : z'.failures = z.failures

/-- No ID is a number that is still to be given out. -/
def Issued (z : Zone) (ids : List String) : Prop :=
  ∀ id ∈ ids, ∀ n, z.nextId ≤ n → id ≠ toString n

variable {z z' z'' : Zone} {id : String}

namespace Later

theorem refl (tidy : z.Tidy) : Later z z where
  tidy := tidy
  nextId := Nat.le_refl _
  came _ hnone hsome := by
    rw [hnone] at hsome
    cases hsome
  journal := List.prefix_refl _
  failures := rfl

theorem trans (h : Later z z') (h' : Later z' z'') : Later z z'' where
  tidy := h'.tidy
  nextId := Nat.le_trans h.nextId h'.nextId
  came id hnone hsome := by
    -- a record comes at one of the two times, under a number that is given out then
    cases hr : z'.record? id with
    | none =>
      obtain ⟨n, hlow, hhigh, hid⟩ := h'.came id hr hsome
      exact ⟨n, Nat.le_trans h.nextId hlow, hhigh, hid⟩
    | some r =>
      obtain ⟨n, hlow, hhigh, hid⟩ := h.came id hnone (by rw [hr]; rfl)
      exact ⟨n, hlow, Nat.lt_of_lt_of_le hhigh h'.nextId, hid⟩
  journal := h.journal.trans h'.journal
  failures := h'.failures.trans h.failures

theorem note (h : Later z z') (c : Call) : Later z (z'.note c) where
  tidy := h.tidy.note c
  nextId := h.nextId
  came := h.came
  journal := h.journal.trans (List.prefix_append _ _)
  failures := h.failures

theorem edit (h : Later z z') {f : StoredRecord → StoredRecord} (keeps : ∀ r, (f r).id = r.id) :
    Later z (z'.edit id f) where
  tidy := h.tidy.edit keeps
  nextId := h.nextId
  came id' hnone hsome := by
    refine h.came id' hnone ?_
    rw [record?_edit z' keeps] at hsome
    split at hsome
    · rename_i heq
      rw [Option.isSome_map, ← heq] at hsome
      exact hsome
    · exact hsome
  journal := h.journal
  failures := h.failures

theorem store (h : Later z z') (r : NewRecord) : Later z (z'.store r) where
  tidy := h.tidy.store r
  nextId := Nat.le_succ_of_le h.nextId
  came id' hnone hsome := by
    rw [h.tidy.record?_store] at hsome
    split at hsome
    · rename_i heq
      exact ⟨z'.nextId, h.nextId, Nat.lt_succ_self _, heq⟩
    · obtain ⟨n, hlow, hhigh, hid⟩ := h.came id' hnone hsome
      exact ⟨n, hlow, Nat.lt_succ_of_lt hhigh, hid⟩
  journal := h.journal
  failures := h.failures

theorem remove (h : Later z z') (id : String) : Later z (z'.remove id) where
  tidy := h.tidy.remove id
  nextId := h.nextId
  came id' hnone hsome := by
    refine h.came id' hnone ?_
    rw [record?_remove] at hsome
    split at hsome
    · cases hsome
    · exact hsome
  journal := h.journal
  failures := h.failures

theorem change (tidy : z.Tidy) {f : StoredRecord → StoredRecord} (keeps : ∀ r, (f r).id = r.id)
    (c : Call) : Later z (z.change id f c).2 := by
  cases hr : z.record? id with
  | none =>
    rw [change_of_record?_none hr]
    exact refl tidy
  | some r =>
    rw [tidy.change_of_record? hr]
    exact ((refl tidy).edit keeps).note c

/-- A record that is still there under an ID that had been given out has been there before. -/
theorem isSome_of_issued (h : Later z z') {ids : List String} (issued : z.Issued ids)
    (hid : id ∈ ids) (hsome : (z'.record? id).isSome) : (z.record? id).isSome := by
  cases hr : z.record? id with
  | some r => rfl
  | none =>
    obtain ⟨n, hlow, -, heq⟩ := h.came id hr hsome
    exact absurd heq (issued id hid n hlow)

end Later

/-- IDs of records have been given out. -/
theorem Tidy.issued (tidy : z.Tidy) {ids : List String} (h : ∀ id ∈ ids, (z.record? id).isSome) :
    z.Issued ids := by
  intro id hid n hn heq
  obtain ⟨r, hr⟩ := Option.isSome_iff_exists.mp (h id hid)
  obtain ⟨m, hm, hsame⟩ := tidy.ids_numbered r (mem_of_record? hr)
  have hmn : m = n := toString_inj (hsame.symm.trans ((id_of_record? hr).trans heq))
  omega

/-- IDs that have been given out remain so, whatever becomes of their records. -/
theorem Issued.mono {ids : List String} (h : z.Issued ids) (hnext : z.nextId ≤ z'.nextId) :
    z'.Issued ids :=
  fun id hid n hn => h id hid n (Nat.le_trans hnext hn)

/-- Any call leads on to a later zone. -/
theorem Tidy.later_answer (tidy : z.Tidy) (c : Call) : Later z (z.answer c).2 := by
  have hrefl := Later.refl tidy
  unfold Zone.answer
  split
  · exact hrefl
  · cases c with
    | describeDomain name => simp only [perform]; split <;> exact hrefl
    | listRecords name query request => exact hrefl
    | describeRecord id => simp only [perform]; split <;> exact hrefl
    | addRecord r =>
      simp only [perform]
      split
      · exact hrefl
      · exact (hrefl.store r).note _
    | changeRecord r =>
      refine Later.change tidy ?_ _
      exact fun _ => rfl
    | deleteRecord id =>
      simp only [perform]
      split
      · exact (hrefl.remove id).note _
      · exact hrefl
    | setWeight id weight =>
      simp only [perform]
      split
      · exact hrefl
      · split
        · refine Later.change tidy ?_ _
          exact fun _ => rfl
        · exact hrefl
    | setRemark id remark =>
      refine Later.change tidy ?_ _
      exact fun _ => rfl
    | setStatus id status =>
      refine Later.change tidy ?_ _
      exact fun _ => rfl
    | setWeighting r =>
      exact ⟨⟨tidy.ids_nodup, tidy.ids_numbered⟩, Nat.le_refl _, hrefl.came,
        List.prefix_append _ _, rfl⟩
    | listWeightedHosts name host request => exact hrefl

/-- Whatever a dialogue does, it leads on to later zones. -/
theorem ensures_later {ε α : Type} (d : Dialogue ε α) (tidy : z.Tidy) :
    d.Ensures remote (fun _ z' => Later z z') (fun _ z' => Later z z') (fun _ z' => Later z z')
      z := by
  have hall : d.Ensures remote (fun _ z' => z.Tidy → Later z z') (fun _ z' => z.Tidy → Later z z')
      (fun _ z' => z.Tidy → Later z z') z :=
    Dialogue.ensures_of_calls (fun z z' => z.Tidy → Later z z') (fun _ tidy => .refl tidy)
      (fun _ _ _ h h' tidy => (h tidy).trans (h' (h tidy).tidy))
      (fun c _ tidy => tidy.later_answer c) d z
  exact hall.mono (fun _ _ h => h tidy) (fun _ _ h => h tidy) fun _ _ h => h tidy

theorem later_of_run {ε α : Type} {d : Dialogue ε α} (tidy : z.Tidy) {result : Except ε α}
    {z' : Zone} (hrun : d.run remote z = (result, z')) : Later z z' := by
  have hended := (Dialogue.ensures_iff.mp (ensures_later d tidy)).2
  rw [hrun] at hended
  cases result <;> exact hended

/-! ## Calls that do not write -/

theorem answer_of_reads {c : Call} (h : c.writes = false) : (z.answer c).2 = z := by
  unfold Zone.answer
  split
  · rfl
  · cases c with
    | describeDomain name => simp only [perform]; split <;> rfl
    | listRecords name query request => rfl
    | describeRecord id => simp only [perform]; split <;> rfl
    | listWeightedHosts name host request => rfl
    | _ => cases h

/-- A dialogue that does not write leaves the zone as it is. -/
theorem run_of_reads {ε α : Type} {d : Dialogue ε α}
    (h : ∀ x ∈ d.steps remote z, x.1.writes = false) : (d.run remote z).2 = z := by
  induction d generalizing z with
  | done a => rfl
  | fail e => rfl
  | ask c next ih =>
    have hsame : (remote.answer c z).2 = z := answer_of_reads (h _ List.mem_cons_self)
    rw [Dialogue.steps, hsame] at h
    rw [Dialogue.run, hsame]
    exact ih _ fun x hx => h x (List.mem_cons_of_mem _ hx)

end Zone

end WeightedDns
