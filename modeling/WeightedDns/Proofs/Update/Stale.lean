import Mathlib.Data.List.Nodup
import WeightedDns.Proofs.Update.Add

/-!
# Sets that have gone stale

A tracked set need not have been read just now: since then records may have been taken away or
changed. `Stale` is how far an update of such a set has come with the entries that both sets have.
It says what has become of each ID (`Mended`) and of each record (`Valued`); only entries that
something is planned for find out that their records are gone, and only those whose cores are
checked that their records have changed.
-/

namespace WeightedDns

open Lifecycle

/-- Both sets have an entry at an index: the tracked one `b`, with the ID of its record, and the
desired one `e`. -/
structure InBoth (prior : TrackedSet) (new : RecordSet) (i : Nat) (b : Entry) (id : String)
    (e : Entry) : Prop where
  tracked : (prior.config.entries.zip prior.id.ids)[i]? = some (b, id)
  desired : new.entries[i]? = some e

namespace InBoth

variable {prior : TrackedSet} {new : RecordSet} {i : Nat} {b b' e e' : Entry} {id id' : String}

theorem id_eq (h : InBoth prior new i b id e) : prior.id.ids[i]? = some id :=
  (List.getElem?_zip_eq_some.mp h.tracked).2

theorem lt_length (h : InBoth prior new i b id e) : i < prior.id.ids.length :=
  (List.getElem?_eq_some_iff.mp h.id_eq).1

theorem mem_ids (h : InBoth prior new i b id e) : id ∈ prior.id.ids :=
  List.mem_of_getElem? h.id_eq

theorem unique (h : InBoth prior new i b id e) (h' : InBoth prior new i b' id' e') :
    b = b' ∧ id = id' ∧ e = e' := by
  obtain ⟨rfl, rfl⟩ := Prod.mk.inj (Option.some.inj (h.tracked.symm.trans h'.tracked))
  exact ⟨rfl, rfl, Option.some.inj (h.desired.symm.trans h'.desired)⟩

end InBoth

/-- Both sets have an entry at every index that both reach. -/
theorem exists_inBoth {prior : TrackedSet} {new : RecordSet} {i : Nat}
    (size : prior.id.ids.length = prior.config.entries.length) (hi : i < prior.id.ids.length)
    (hi' : i < new.entries.length) : ∃ b id e, InBoth prior new i b id e := by
  have hb := List.getElem?_eq_getElem (size ▸ hi)
  have hid := List.getElem?_eq_getElem hi
  exact ⟨_, _, _, List.getElem?_zip_eq_some.mpr ⟨hb, hid⟩, List.getElem?_eq_getElem hi'⟩

namespace Zone

section

variable {z₀ z z' : Zone} {prior : TrackedSet} {new : RecordSet} {deferred : Bool} {n : Nat}
  {p : Progress} {b e : Entry} {id id' : String} {r r' : StoredRecord}

/-! ## What becomes of IDs -/

/-- The ID of an entry stays, or work on the entry has found its record gone and added another. -/
inductive Mended (z₀ z : Zone) (planned : Prop) (id : String) : String → Prop where
  | kept (h : planned → (z₀.record? id).isSome) : Mended z₀ z planned id id
  | replaced {newId : String} (hplanned : planned) (gone : z₀.record? id = none)
      (fresh : z₀.record? newId = none) (there : (z.record? newId).isSome) :
      Mended z₀ z planned id newId

theorem Mended.mono {planned : Prop} (h : Mended z₀ z planned id id')
    (hstays : ∀ id, (z.record? id).isSome → (z'.record? id).isSome) :
    Mended z₀ z' planned id id' := by
  cases h with
  | kept h => exact .kept h
  | replaced hplanned gone fresh there => exact .replaced hplanned gone fresh (hstays _ there)

/-- The IDs when the first `n` entries that both sets have are done. -/
structure Mending (z₀ : Zone) (prior : TrackedSet) (new : RecordSet) (deferred : Bool) (n : Nat)
    (p : Progress) (z : Zone) : Prop extends Later z₀ z where
  known : p.known = none
  size : p.ids.length = prior.id.ids.length
  stays : ∀ id, (z₀.record? id).isSome → (z.record? id).isSome
  todo : ∀ i, n ≤ i → p.ids[i]? = prior.id.ids[i]?
  done : ∀ (i : Nat) (b : Entry) (id : String) (e : Entry), i < n → InBoth prior new i b id e →
    ∃ id', p.ids[i]? = some id' ∧
      Mended z₀ z (Plan.reconcile prior.config new i id b e ≠ []) id id'
  ids : ∀ id ∈ p.ids, id ∈ prior.id.ids ∨ (z.record? id).isSome
  nodup : prior.id.ids.Nodup → p.ids.Nodup
  waits : ∀ q ∈ p.pending, deferred = true ∧ ∃ (i : Nat) (e : Entry), i < n ∧
    p.ids[i]? = some q.1 ∧ new.entries[i]? = some e ∧ q.2 = e.weight

namespace Mending

theorem zero (tidy : z₀.Tidy) : Mending z₀ prior new deferred 0 ⟨prior.id.ids, [], none⟩ z₀ where
  toLater := .refl tidy
  known := rfl
  size := rfl
  stays _ h := h
  todo _ _ := rfl
  done _ _ _ _ h := absurd h (Nat.not_lt_zero _)
  ids _ h := .inl h
  nodup h := h
  waits _ h := nomatch h

/-- One more entry is done, and its record has the ID `id'` now. -/
theorem next (h : Mending z₀ prior new deferred n p z) (hb : InBoth prior new n b id e)
    (hlater : Later z₀ z') (hstays : ∀ id, (z.record? id).isSome → (z'.record? id).isSome)
    (hmended : Mended z₀ z' (Plan.reconcile prior.config new n id b e ≠ []) id id')
    (hnew : id' = id ∨ (z'.record? id').isSome ∧ id' ∉ p.ids) :
    Mending z₀ prior new deferred (n + 1) { p with ids := p.ids.set n id' } z' where
  toLater := hlater
  known := h.known
  size := by
    rw [List.length_set]
    exact h.size
  stays id hid := hstays id (h.stays id hid)
  todo i hi := by
    rw [List.getElem?_set_ne (by omega)]
    exact h.todo i (by omega)
  done i b₁ id₁ e₁ hi hb₁ := by
    rcases Nat.lt_succ_iff_lt_or_eq.mp hi with hi | rfl
    · obtain ⟨id₂, hid₂, hold⟩ := h.done i b₁ id₁ e₁ hi hb₁
      refine ⟨id₂, ?_, hold.mono hstays⟩
      rw [List.getElem?_set_ne (by omega)]
      exact hid₂
    · obtain ⟨rfl, rfl, rfl⟩ := hb.unique hb₁
      refine ⟨id', ?_, hmended⟩
      rw [List.getElem?_set_self (by rw [h.size]; exact hb.lt_length)]
  ids x hx := by
    rcases List.mem_or_eq_of_mem_set hx with hx | rfl
    · exact (h.ids x hx).imp_right (hstays x)
    · rcases hnew with rfl | ⟨hthere, -⟩
      · exact .inl hb.mem_ids
      · exact .inr hthere
  nodup hprior := by
    rcases hnew with rfl | ⟨-, hnot⟩
    · have hid := (h.todo n (Nat.le_refl n)).trans hb.id_eq
      obtain ⟨hlt, rfl⟩ := List.getElem?_eq_some_iff.mp hid
      rw [List.set_getElem_self]
      exact h.nodup hprior
    · exact (h.nodup hprior).set hnot
  waits q hq := by
    obtain ⟨hdeferred, i, a, hi, hid, ha, hw⟩ := h.waits q hq
    refine ⟨hdeferred, i, a, Nat.lt_succ_of_lt hi, ?_, ha, hw⟩
    rw [List.getElem?_set_ne (by omega)]
    exact hid

/-- Weight, remark and status of the record that an entry has now do not matter to IDs. -/
theorem touched (h : Mending z₀ prior new deferred (n + 1) p z) (hid : p.ids[n]? = some id)
    (he : new.entries[n]? = some e) (ht : Touched id z z') {weight : Option UInt32}
    (hweight : ∀ w, weight = some w → w = e.weight) :
    Mending z₀ prior new deferred (n + 1)
      { p with pending := p.pending ++ waiting deferred id weight } z' where
  toLater := h.toLater.touched ht
  known := h.known
  size := h.size
  stays id hsome := by
    rw [isSome_of_cores ht.cores]
    exact h.stays id hsome
  todo := h.todo
  done i b id e hi hb := by
    obtain ⟨id', hid', hmended⟩ := h.done i b id e hi hb
    refine ⟨id', hid', hmended.mono ?_⟩
    intro id hsome
    rw [isSome_of_cores ht.cores]
    exact hsome
  ids id hmem := by
    rw [isSome_of_cores ht.cores]
    exact h.ids id hmem
  nodup := h.nodup
  waits q hq := by
    rcases List.mem_append.mp hq with hq | hq
    · exact h.waits q hq
    · obtain ⟨hdeferred, hw, hid'⟩ := mem_waiting.mp hq
      exact ⟨hdeferred, n, e, Nat.lt_succ_self n, by rw [hid, hid'], he, hweight _ hw⟩

/-- The number that is given out next is not among the IDs. -/
theorem freshId_notMem (h : Mending z₀ prior new deferred n p z)
    (issued : z₀.Issued prior.id.ids) : z.freshId ∉ p.ids := by
  intro hmem
  rcases h.ids _ hmem with hprior | hthere
  · exact issued _ hprior z.nextId h.nextId rfl
  · rw [h.tidy.record?_freshId] at hthere
    cases hthere

theorem record?_freshId (h : Mending z₀ prior new deferred n p z) :
    z₀.record? z.freshId = none := by
  cases hr : z₀.record? z.freshId with
  | none => rfl
  | some r =>
    have hstays := h.stays z.freshId (by rw [hr]; rfl)
    rw [h.tidy.record?_freshId] at hstays
    cases hstays

end Mending

/-! ## What becomes of records -/

/-- No entry before the `n`-th that is tracked under the ID has its core checked. -/
def Unchecked (prior : TrackedSet) (new : RecordSet) (n : Nat) (id : String) : Prop :=
  ∀ (i : Nat) (b e : Entry), i < n → InBoth prior new i b id e →
    Plan.coreChanges prior.config new b e = false

/-- A record has the value of an entry before the `n`-th, or it is as it was and has not been
checked. -/
def Valued (z₀ : Zone) (prior : TrackedSet) (new : RecordSet) (n : Nat) (r : StoredRecord) : Prop :=
  (∃ i e, i < n ∧ new.entries[i]? = some e ∧ r.value = e.value) ∨
    ∃ r₀, z₀.record? r.id = some r₀ ∧ r.core = r₀.core ∧ Unchecked prior new n r.id

theorem Unchecked.mono {m : Nat} (h : Unchecked prior new n id) (hm : m ≤ n) :
    Unchecked prior new m id :=
  fun i b e hi => h i b e (Nat.lt_of_lt_of_le hi hm)

theorem Unchecked.succ (h : Unchecked prior new n id') (hb : InBoth prior new n b id e)
    (hlast : id' = id → Plan.coreChanges prior.config new b e = false) :
    Unchecked prior new (n + 1) id' := by
  intro i b₁ e₁ hi hb₁
  rcases Nat.lt_succ_iff_lt_or_eq.mp hi with hi | rfl
  · exact h i b₁ e₁ hi hb₁
  · obtain ⟨rfl, rfl, rfl⟩ := hb.unique hb₁
    exact hlast rfl

theorem Valued.succ (h : Valued z₀ prior new n r) (hb : InBoth prior new n b id e)
    (hlast : r.id = id → Plan.coreChanges prior.config new b e = false ∨ r.value = e.value) :
    Valued z₀ prior new (n + 1) r := by
  rcases h with ⟨i, a, hi, ha, hvalue⟩ | ⟨r₀, hr₀, hcore, hunchecked⟩
  · exact .inl ⟨i, a, Nat.lt_succ_of_lt hi, ha, hvalue⟩
  · by_cases hvalue : r.value = e.value
    · exact .inl ⟨n, e, Nat.lt_succ_self n, hb.desired, hvalue⟩
    · refine .inr ⟨r₀, hr₀, hcore, hunchecked.succ hb ?_⟩
      intro hid
      exact (hlast hid).resolve_right hvalue

theorem Valued.of_core_eq (h : Valued z₀ prior new n r) (hcore : r'.core = r.core) :
    Valued z₀ prior new n r' := by
  have hid : r'.id = r.id := id_eq_of_core_eq hcore
  have hvalue : r'.value = r.value := congrArg (·.value) hcore
  rw [Valued, hid, hvalue]
  refine h.imp_right ?_
  rintro ⟨r₀, hr₀, hcore₀, hunchecked⟩
  exact ⟨r₀, hr₀, hcore.trans hcore₀, hunchecked⟩

/-- The records when the first `n` entries that both sets have are done. -/
structure Surveyed (z₀ : Zone) (prior : TrackedSet) (new : RecordSet) (n : Nat) (z : Zone) :
    Prop where
  values : ∀ id r, z.record? id = some r → Valued z₀ prior new n r
  spared : ∀ id r₀, z₀.record? id = some r₀ → Unchecked prior new n id →
    ∃ r, z.record? id = some r ∧ r.core = r₀.core
  length : z.records.length ≤ z₀.records.length + n

namespace Surveyed

theorem zero (z₀ : Zone) (prior : TrackedSet) (new : RecordSet) : Surveyed z₀ prior new 0 z₀ where
  values id r hr := by
    refine .inr ⟨r, by rw [id_of_record? hr, hr], rfl, ?_⟩
    intro i _ _ hi
    exact absurd hi (Nat.not_lt_zero i)
  spared _ r₀ hr₀ _ := ⟨r₀, hr₀, rfl⟩
  length := Nat.le_refl _

/-- The record of one more entry stays as it is. -/
theorem keep (h : Surveyed z₀ prior new n z) (hb : InBoth prior new n b id e)
    (hkept : Plan.coreChanges prior.config new b e = false ∨
      ∀ r, z.record? id = some r → r.value = e.value) :
    Surveyed z₀ prior new (n + 1) z where
  values id' r hr := by
    refine (h.values id' r hr).succ hb ?_
    rintro rfl
    refine hkept.imp_right fun hvalue => hvalue r ?_
    rw [id_of_record? hr]
    exact hr
  spared id' r₀ hr₀ hunchecked := h.spared id' r₀ hr₀ (hunchecked.mono (Nat.le_succ n))
  length := Nat.le_succ_of_le h.length

/-- The record of one more entry has been checked and overwritten. -/
theorem rewrite (h : Surveyed z₀ prior new n z) (hb : InBoth prior new n b id e)
    (hchecked : Plan.coreChanges prior.config new b e = true) (c : Call) :
    Surveyed z₀ prior new (n + 1) ((z.edit id (.rewritten new e)).note c) where
  values id' r hr := by
    have hedit := @record?_edit z id (.rewritten new e) (fun _ => rfl) id'
    rw [note_record?, hedit] at hr
    split at hr
    · obtain ⟨r₁, -, rfl⟩ := Option.map_eq_some_iff.mp hr
      exact .inl ⟨n, e, Nat.lt_succ_self n, hb.desired, rfl⟩
    · rename_i hne
      refine (h.values id' r hr).succ hb ?_
      intro hid
      exact absurd ((id_of_record? hr).symm.trans hid) hne
  spared id' r₀ hr₀ hunchecked := by
    have hne : id' ≠ id := by
      rintro rfl
      have hnot := hunchecked n b e (Nat.lt_succ_self n) hb
      rw [hchecked] at hnot
      cases hnot
    have hedit := @record?_edit z id (.rewritten new e) (fun _ => rfl) id'
    rw [note_record?, hedit, if_neg hne]
    exact h.spared id' r₀ hr₀ (hunchecked.mono (Nat.le_succ n))
  length := by
    rw [note_records, edit, List.length_map]
    exact Nat.le_succ_of_le h.length

/-- A record has been added in place of the one of one more entry. -/
theorem add (h : Surveyed z₀ prior new n z) (tidy : z.Tidy) (hb : InBoth prior new n b id e)
    (hgone : z.record? id = none) (c : Call) :
    Surveyed z₀ prior new (n + 1) ((z.store (.of new e)).note c) where
  values id' r hr := by
    rw [note_record?, tidy.record?_store] at hr
    split at hr
    · obtain rfl := Option.some.inj hr
      exact .inl ⟨n, e, Nat.lt_succ_self n, hb.desired, rfl⟩
    · refine (h.values id' r hr).succ hb ?_
      intro hid
      rw [id_of_record? hr] at hid
      rw [← hid, hr] at hgone
      cases hgone
  spared id' r₀ hr₀ hunchecked := by
    obtain ⟨r, hr, hcore⟩ := h.spared id' r₀ hr₀ (hunchecked.mono (Nat.le_succ n))
    have hne : id' ≠ z.freshId := by
      rintro rfl
      rw [tidy.record?_freshId] at hr
      cases hr
    refine ⟨r, ?_, hcore⟩
    rw [note_record?, tidy.record?_store, if_neg hne, hr]
  length := by
    have := h.length
    rw [note_records, store_records, List.length_append, List.length_singleton]
    omega

theorem touched (h : Surveyed z₀ prior new n z) (ht : Touched id z z') :
    Surveyed z₀ prior new n z' where
  values id' r hr := by
    obtain ⟨r₁, hr₁, hcore⟩ := exists_record_of_cores ht.cores.symm hr
    exact (h.values id' r₁ hr₁).of_core_eq hcore.symm
  spared id' r₀ hr₀ hunchecked := by
    obtain ⟨r, hr, hcore⟩ := h.spared id' r₀ hr₀ hunchecked
    obtain ⟨r', hr', hcore'⟩ := exists_record_of_cores ht.cores hr
    exact ⟨r', hr', hcore'.trans hcore⟩
  length := by
    rw [length_of_cores ht.cores]
    exact h.length

end Surveyed

/-! ## One entry -/

/-- How far an update of a set that may be stale has come when `n` entries are done. -/
structure Stale (z₀ : Zone) (prior : TrackedSet) (new : RecordSet) (deferred : Bool) (n : Nat)
    (p : Progress) (z : Zone) : Prop extends Mending z₀ prior new deferred n p z where
  surveyed : Surveyed z₀ prior new n z

namespace Stale

theorem zero (tidy : z₀.Tidy) : Stale z₀ prior new deferred 0 ⟨prior.id.ids, [], none⟩ z₀ :=
  ⟨.zero tidy, .zero z₀ prior new⟩

theorem touch (h : Stale z₀ prior new deferred (n + 1) p z) (hid : p.ids[n]? = some id)
    (he : new.entries[n]? = some e) {weight : Option UInt32}
    (hweight : ∀ w, weight = some w → w = e.weight) (remark : Option String)
    (status : Option Switch) :
    (touch deferred id weight remark status p).Ensures remote (fun _ _ => True)
      (Stale z₀ prior new deferred (n + 1)) (fun _ _ => True) z := by
  refine ensures_touch h.tidy (.inr fun _ _ => trivial) (fun _ _ _ => trivial)
    (fun _ _ _ => trivial) (fun _ _ _ _ _ _ _ _ => trivial) ?_
  intro z' ht _
  exact ⟨h.toMending.touched hid he ht hweight, h.surveyed.touched ht⟩

theorem id_eq (h : Stale z₀ prior new deferred n p z) (hb : InBoth prior new n b id e) :
    p.ids[n]? = some id :=
  (h.todo n (Nat.le_refl n)).trans hb.id_eq

/-- One more entry keeps its ID, in a zone with the same IDs. -/
theorem keep (h : Stale z₀ prior new deferred n p z) (hb : InBoth prior new n b id e)
    (hfound : Plan.reconcile prior.config new n id b e ≠ [] → (z₀.record? id).isSome)
    (hlater : Later z₀ z') (hstays : ∀ id, (z.record? id).isSome → (z'.record? id).isSome)
    (hsurveyed : Surveyed z₀ prior new (n + 1) z') :
    Stale z₀ prior new deferred (n + 1) p z' := by
  have hnext := h.toMending.next hb hlater hstays (.kept hfound) (.inl rfl)
  obtain ⟨hlt, hself⟩ := List.getElem?_eq_some_iff.mp (h.id_eq hb)
  have hids : p.ids.set n id = p.ids := by rw [← hself, List.set_getElem_self]
  rw [hids] at hnext
  exact ⟨hnext, hsurveyed⟩

/-- The record of one more entry has been checked and overwritten. -/
theorem rewrite (h : Stale z₀ prior new deferred n p z) (hb : InBoth prior new n b id e)
    (hfound : (z₀.record? id).isSome) (hthere : (z.record? id).isSome)
    (hchecked : Plan.coreChanges prior.config new b e = true) (c : Call) :
    Stale z₀ prior new deferred (n + 1) p ((z.edit id (.rewritten new e)).note c) := by
  have hlater : Later z₀ ((z.edit id (.rewritten new e)).note c) :=
    (h.toLater.edit (f := .rewritten new e) fun _ => rfl).note c
  refine h.keep hb (fun _ => hfound) hlater ?_ (h.surveyed.rewrite hb hchecked c)
  intro id' hsome
  rw [note_record?, @record?_edit z id (.rewritten new e) (fun _ => rfl)]
  split
  · rw [Option.isSome_map]
    exact hthere
  · exact hsome

/-- One more entry has got a new record, as the one it had is gone. -/
theorem replace (h : Stale z₀ prior new deferred n p z) (issued : z₀.Issued prior.id.ids)
    (hb : InBoth prior new n b id e)
    (hplanned : Plan.reconcile prior.config new n id b e ≠ []) (hgone : z.record? id = none) :
    Stale z₀ prior new deferred (n + 1) { p with ids := p.ids.set n z.freshId }
      ((z.store (.of new e)).note (.addRecord (.of new e))) := by
  have hrecord : ∀ id', ((z.store (.of new e)).note (.addRecord (.of new e))).record? id' =
      if id' = z.freshId then some (stored id' (.of new e))
      else z.record? id' := by
    intro id'
    rw [note_record?, h.tidy.record?_store]
  have hstays : ∀ id', (z.record? id').isSome →
      (((z.store (.of new e)).note (.addRecord (.of new e))).record? id').isSome := by
    intro id' hsome
    rw [hrecord]
    split
    · rfl
    · exact hsome
  have hthere : (((z.store (.of new e)).note (.addRecord (.of new e))).record?
      z.freshId).isSome := by
    rw [hrecord, if_pos rfl]
    rfl
  have hgone₀ : z₀.record? id = none := by
    cases hr₀ : z₀.record? id with
    | none => rfl
    | some r₀ =>
      have hkept := h.stays id (by rw [hr₀]; rfl)
      rw [hgone] at hkept
      cases hkept
  exact ⟨h.toMending.next hb ((h.toLater.store _).note _) hstays
    (.replaced hplanned hgone₀ h.record?_freshId hthere)
    (.inr ⟨hthere, h.freshId_notMem issued⟩), h.surveyed.add h.tidy hb hgone _⟩

/-- The work on an entry that both sets have, if there is any. -/
theorem step (h : Stale z₀ prior new deferred n p z) (issued : z₀.Issued prior.id.ids)
    (allows : z₀.failures.lookup .describeRecord = none) (hb : InBoth prior new n b id e) :
    (runActions new deferred p (Plan.reconcile prior.config new n id b e)).Ensures remote
      (fun _ _ => True) (Stale z₀ prior new deferred (n + 1)) (fun _ _ => True) z := by
  by_cases hnil : Plan.reconcile prior.config new n id b e = []
  · rw [hnil, runActions, Dialogue.pure_eq, Dialogue.ensures_done]
    refine h.keep hb (fun hplanned => absurd hnil hplanned) h.toLater (fun _ hid => hid) ?_
    exact h.surveyed.keep hb (.inl ((Plan.reconcile_eq_nil_iff.mp hnil).1))
  · have hchange : ∀ w, Plan.weightChange prior.config new b e = some w → w = e.weight :=
      fun w hw => (Plan.weightChange_eq_some hw).1
    -- a record that is found has been there all the time, as its ID had been given out
    have hfound : ∀ r, z.record? id = some r → (z₀.record? id).isSome := by
      intro r hr
      exact h.toLater.isSome_of_issued issued hb.mem_ids (by rw [hr]; rfl)
    refine ensures_planned hb.desired ?_ ?_
    · rw [runReconcile_eq, Dialogue.ensures_bind]
      refine ensures_reconcileCore h.tidy (.inr fun _ _ => trivial) (fun _ => trivial) ?_ ?_ ?_
      · intro r hr hmatches
        refine (h.keep hb (fun _ => hfound r hr) h.toLater (fun _ hid => hid) ?_).touch
          (h.id_eq hb) hb.desired hchange _ _
        refine h.surveyed.keep hb ?_
        rw [Bool.and_eq_false_iff, Bool.not_eq_false'] at hmatches
        refine hmatches.imp_right ?_
        intro hm r' hr'
        obtain rfl : r = r' := Option.some.inj (hr.symm.trans hr')
        exact (StoredRecord.coreMatches_iff.mp hm).2.2.1
      · intro r hr hchecked c
        rw [Bool.and_eq_true] at hchecked
        have hnext := h.rewrite hb (hfound r hr) (by rw [hr]; rfl) hchecked.1 c
        exact ⟨fun _ => trivial, hnext.touch (h.id_eq hb) hb.desired hchange _ _⟩
      · intro hgone
        have hgone : z.record? id = none := by
          refine hgone.resolve_right fun hfails => hfails ?_
          rw [h.failures]
          exact allows
        refine ensures_add (.inr fun _ _ => trivial) (fun _ => trivial) (fun _ _ => trivial) ?_
        rintro - _ rfl
        have hnext := h.replace issued hb hnil hgone
        have hlt := (List.getElem?_eq_some_iff.mp (h.id_eq hb)).1
        exact ⟨fun _ => trivial, hnext.touch (List.getElem?_set_self hlt) hb.desired
          (fun w hw => (startingWeight_eq_some hw).1) _ _⟩
    · intro hcore hweight hremark hstatus
      exact absurd (by simp [Plan.reconcile, hcore, hweight, hremark, hstatus]) hnil

end Stale

end

end Zone

end WeightedDns
