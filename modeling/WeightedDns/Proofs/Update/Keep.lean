import WeightedDns.Proofs.Update.Loop
import WeightedDns.Proofs.Update.Matching

/-!
# Entries that are kept

An update first goes through the entries that the tracked and the desired set both have. Where the
tracked set has just been read, every record is found, and `ensures_reconciles_kept` says what the
zone is after each entry: the records so far have been seen to, all others are as they were
(`Stage`), and weight, remark and status are those of the entries (`Adorned`).
-/

namespace WeightedDns

open Lifecycle

namespace Zone

/-- The set has just been read from different records of the zone. -/
structure Tracks (z : Zone) (domain : String) (records : List StoredRecord) (t : TrackedSet) :
    Prop where
  tidy : z.Tidy
  allows : z.failures.lookup .describeRecord = none
  mem : ∀ r ∈ records, r ∈ z.records
  nodup : (records.map (·.id)).Nodup
  read : ∃ first, records.head? = some first ∧ t = z.reading domain first records

/-- The entry says of the record what is stored; its weight is zero where it is not known. -/
structure Describes (b : Entry) (r : StoredRecord) : Prop where
  value : b.value = r.value
  ttl : b.ttl = r.ttl
  weight : b.weight ≠ 0 → r.weight = some b.weight
  remark : b.remarkText = r.remark.getD ""
  status : b.status = r.status

theorem Tidy.entryRead_describes {z : Zone} (tidy : z.Tidy) (domain : String)
    (first : StoredRecord) {r : StoredRecord} (hr : r ∈ z.records) :
    Describes (z.entryRead domain first r) r := by
  refine ⟨rfl, rfl, ?_, entryRead_remarkText z domain first r, rfl⟩
  have hweight : (z.entryRead domain first r).weight =
      (((z.weightListing domain first).find? fun l => l.id == r.id).bind (·.weight)).getD 0 := rfl
  rw [hweight]
  cases hfind : (z.weightListing domain first).find? fun l => l.id == r.id with
  | none => intro h; exact absurd rfl h
  | some l =>
    have hl : l ∈ z.records :=
      (List.mem_filter.mp (List.mem_of_mem_take (List.mem_of_find?_eq_some hfind))).1
    have hid : l.id = r.id := by simpa using List.find?_some hfind
    have hsame : some l = some r := by
      rw [← tidy.record?_of_mem hl, hid, tidy.record?_of_mem hr]
    obtain rfl := Option.some.inj hsame
    intro h
    cases hw : l.weight with
    | none =>
      rw [Option.bind_some, hw] at h
      exact absurd rfl h
    | some w => rw [Option.bind_some, hw, Option.getD_some]

namespace Tracks

variable {z : Zone} {domain : String} {records : List StoredRecord} {t : TrackedSet}

theorem ids (h : Tracks z domain records t) : t.id.ids = records.map (·.id) := by
  obtain ⟨first, -, rfl⟩ := h.read
  rfl

theorem domain_eq (h : Tracks z domain records t) : t.config.domain = domain := by
  obtain ⟨first, -, rfl⟩ := h.read
  rfl

theorem size (h : Tracks z domain records t) : t.id.ids.length = t.config.entries.length := by
  obtain ⟨first, -, rfl⟩ := h.read
  exact z.length_reading domain first records

theorem length_zip (h : Tracks z domain records t) :
    (t.config.entries.zip t.id.ids).length = records.length := by
  obtain ⟨first, -, rfl⟩ := h.read
  rw [zip_reading, List.length_map]

/-- What a plan works on is the records, each with an entry that describes it. -/
theorem zip_getElem? (h : Tracks z domain records t) {i : Nat} {b : Entry} {id : String}
    (hi : (t.config.entries.zip t.id.ids)[i]? = some (b, id)) :
    ∃ r, records[i]? = some r ∧ r.id = id ∧ Describes b r := by
  obtain ⟨first, -, rfl⟩ := h.read
  rw [zip_reading, List.getElem?_map, Option.map_eq_some_iff] at hi
  obtain ⟨r, hr, hpair⟩ := hi
  obtain ⟨rfl, rfl⟩ := Prod.mk.inj hpair
  exact ⟨r, hr, rfl, h.tidy.entryRead_describes domain first (h.mem r (List.mem_of_getElem? hr))⟩

theorem record? (h : Tracks z domain records t) {i : Nat} {r : StoredRecord}
    (hr : records[i]? = some r) : z.record? r.id = some r :=
  h.tidy.record?_of_mem (h.mem r (List.mem_of_getElem? hr))

/-- Records at different places have different IDs. -/
theorem index_eq (h : Tracks z domain records t) {i j : Nat} {r s : StoredRecord}
    (hr : records[i]? = some r) (hs : records[j]? = some s) (hid : r.id = s.id) : i = j := by
  have hi := (List.getElem?_eq_some_iff.mp hr).1
  refine (List.getElem?_inj (by simpa using hi) h.nodup).mp ?_
  rw [List.getElem?_map, List.getElem?_map, hr, hs, Option.map_some, Option.map_some, hid]

end Tracks

/-- A set of which all records are there is read back as a whole. -/
theorem ensures_readBack_whole {z : Zone} {s : RecordSet} {ids : List String}
    {inv : Call → Zone → Prop} {post : TrackedSet → Zone → Prop}
    {err : LifecycleError → Zone → Prop} (tidy : z.Tidy)
    (sure : z.failures = [] ∨ ∀ e z', err e z') (hinv : ∀ c, c.writes = false → inv c z)
    (hsize : ids.length = s.entries.length) (hne : ids ≠ [])
    (hall : ∀ id ∈ ids, (z.record? id).isSome) (hnodup : ids.Nodup)
    (hpost : ∀ t, t.id.ids = ids → Tracks z s.domain (z.fetched ids) t → post t z) :
    (readBack ⟨ids⟩ s).Ensures remote inv post err z := by
  have hids := map_id_fetched hall
  refine ensures_readBack tidy sure hinv ?_ ?_ ?_
  · intro hother
    exact absurd hsize hother
  · rintro (hnil | hfails)
    · rw [hnil] at hids
      exact absurd hids.symm hne
    · rcases sure with hnone | hany
      · exact absurd (lookup_failures_eq_none hnone _) hfails
      · exact fun e => hany e z
  · intro first rest hfetched hallows _
    refine hpost _ ?_ ⟨tidy, hallows, fun r hr => (mem_fetched hr).1, ?_, first, ?_, ?_⟩
    · rw [← hids, hfetched]
      rfl
    · rw [hids]
      exact hnodup
    · rw [hfetched]
      rfl
    · rw [hfetched]

/-! ## Work on one record -/

/-- The second zone differs from the first at most in the record with an ID. -/
structure Reworked (id : String) (z z' : Zone) : Prop where
  tidy : z'.Tidy
  length : z'.records.length = z.records.length
  others : ∀ id', id' ≠ id → z'.record? id' = z.record? id'
  weighting : z'.weighting = z.weighting
  failures : z'.failures = z.failures

theorem Reworked.refl {z : Zone} (tidy : z.Tidy) (id : String) : Reworked id z z :=
  ⟨tidy, rfl, fun _ _ => rfl, rfl, rfl⟩

theorem Reworked.trans {id : String} {z₁ z₂ z₃ : Zone} (h : Reworked id z₁ z₂)
    (h' : Reworked id z₂ z₃) : Reworked id z₁ z₃ where
  tidy := h'.tidy
  length := h'.length.trans h.length
  others id' hid := (h'.others id' hid).trans (h.others id' hid)
  weighting := h'.weighting.trans h.weighting
  failures := h'.failures.trans h.failures

theorem Touched.reworked {id : String} {z z' : Zone} (h : Touched id z z') : Reworked id z z' :=
  ⟨h.tidy, length_of_cores h.cores, h.others, h.weighting, h.failures⟩

theorem reworked_rewritten {z : Zone} (tidy : z.Tidy) (s : RecordSet) (e : Entry) (id : String)
    (c : Call) : Reworked id z ((z.edit id (.rewritten s e)).note c) := by
  refine ⟨tidy.rewritten s e id c, ?_, ?_, rfl, rfl⟩
  · simp [edit]
  · intro id' hne
    have hedit := @record?_edit z id (.rewritten s e) (fun _ => rfl) id'
    rw [if_neg hne] at hedit
    exact hedit

/-! ## Records that have been seen to -/

/-- The tracked records before the `n`-th have been seen to, and all others are as they were. -/
structure Stage (z₀ : Zone) (records : List StoredRecord) (old new : RecordSet) (n : Nat)
    (z : Zone) : Prop where
  tidy : z.Tidy
  length : z.records.length = z₀.records.length
  done : ∀ i r e, i < n → records[i]? = some r → new.entries[i]? = some e →
    (z.record? r.id).map (·.core) = some (r.reconciled old new e).core
  todo : ∀ i r, n ≤ i → records[i]? = some r → z.record? r.id = some r
  others : ∀ id, id ∉ records.map (·.id) → z.record? id = z₀.record? id
  weighting : z.weighting = z₀.weighting
  failures : z.failures = z₀.failures

/-- A record has remark, status and weight of an entry, or the weight is waiting. -/
structure Adorned (s : RecordSet) (pending : List (String × UInt32)) (e : Entry)
    (r : StoredRecord) : Prop where
  weight : s.weighting.isOn = true → e.weight ≠ 0 →
    r.weight = some e.weight ∨ (r.id, e.weight) ∈ pending
  remark : r.remark.getD "" = e.remarkText
  status : r.status = e.status

theorem Adorned.mono {s : RecordSet} {pending pending' : List (String × UInt32)} {e : Entry}
    {r : StoredRecord} (h : Adorned s pending e r) (hsub : pending ⊆ pending') :
    Adorned s pending' e r :=
  ⟨fun hon hw => (h.weight hon hw).imp id fun hmem => hsub hmem, h.remark, h.status⟩

/-- The weights that wait are those of entries with records. -/
def Waits (s : RecordSet) (deferred : Bool) (ids : List String)
    (pending : List (String × UInt32)) : Prop :=
  ∀ q ∈ pending, deferred = true ∧
    ∃ (i : Nat) (e : Entry), ids[i]? = some q.1 ∧ s.entries[i]? = some e ∧ q.2 = e.weight

theorem mem_waiting {deferred : Bool} {id : String} {weight : Option UInt32}
    {q : String × UInt32} :
    q ∈ waiting deferred id weight ↔ deferred = true ∧ weight = some q.2 ∧ q.1 = id := by
  obtain ⟨id', w'⟩ := q
  unfold waiting
  cases deferred <;> cases weight <;> simp [and_comm, eq_comm]

/-- How far an update has come when `n` entries that are kept have been seen to. -/
structure Kept (z₀ : Zone) (records : List StoredRecord) (old new : RecordSet) (deferred : Bool)
    (n : Nat) (p : Progress) (z : Zone) : Prop extends Stage z₀ records old new n z where
  ids : p.ids = records.map (·.id)
  known : p.known = none
  adorned : ∀ i r e, i < n → records[i]? = some r → new.entries[i]? = some e →
    ∃ r', z.record? r.id = some r' ∧ Adorned new p.pending e r'
  waits : Waits new deferred p.ids p.pending

section

variable {z₀ z : Zone} {domain : String} {records : List StoredRecord} {t : TrackedSet}
  {new : RecordSet} {deferred : Bool} {n : Nat} {p : Progress} {r r' : StoredRecord}
  {b e : Entry} {inv : Call → Zone → Prop} {err : LifecycleError → Zone → Prop}

theorem Stage.zero (tracks : Tracks z₀ domain records t) :
    Stage z₀ records t.config new 0 z₀ where
  tidy := tracks.tidy
  length := rfl
  done _ _ _ h := absurd h (Nat.not_lt_zero _)
  todo _ _ _ hr := tracks.record? hr
  others _ _ := rfl
  weighting := rfl
  failures := rfl

theorem Stage.succ (tracks : Tracks z₀ domain records t)
    (h : Stage z₀ records t.config new n z) (hr : records[n]? = some r) {z' : Zone}
    (hw : Reworked r.id z z')
    (hcore : ∀ e, new.entries[n]? = some e →
      (z'.record? r.id).map (·.core) = some (r.reconciled t.config new e).core) :
    Stage z₀ records t.config new (n + 1) z' where
  tidy := hw.tidy
  length := hw.length.trans h.length
  done i s a hi hs ha := by
    -- the records before have other IDs, so only the last one is new to the stage
    rcases Nat.lt_succ_iff_lt_or_eq.mp hi with hi | rfl
    · have hne : s.id ≠ r.id := fun heq => Nat.ne_of_lt hi (tracks.index_eq hs hr heq)
      rw [hw.others s.id hne]
      exact h.done i s a hi hs ha
    · obtain rfl : r = s := Option.some.inj (hr.symm.trans hs)
      exact hcore a ha
  todo i s hi hs := by
    have hne : s.id ≠ r.id := by
      intro heq
      have := tracks.index_eq hs hr heq
      omega
    rw [hw.others s.id hne]
    exact h.todo i s (by omega) hs
  others id hid := by
    have hne : id ≠ r.id := by
      rintro rfl
      exact hid (List.mem_map_of_mem (List.mem_of_getElem? hr))
    rw [hw.others id hne]
    exact h.others id hid
  weighting := hw.weighting.trans h.weighting
  failures := hw.failures.trans h.failures

theorem TouchedTo.refl (deferred : Bool) (r : StoredRecord) :
    TouchedTo deferred none none none r r :=
  ⟨rfl, by cases deferred <;> rfl, rfl, rfl⟩

/-- What is planned for weight, remark and status of a record brings them in line. -/
theorem TouchedTo.adorned {old : RecordSet} (hb : Describes b r)
    (h : TouchedTo deferred (Plan.weightChange old new b e) (Plan.remarkChange b e)
      (Plan.statusChange b e) (r.reconciled old new e) r') (pending : List (String × UInt32)) :
    Adorned new (pending ++ waiting deferred r.id (Plan.weightChange old new b e)) e r' := by
  have hid : r'.id = r.id := by rw [id_eq_of_core_eq h.core, StoredRecord.reconciled_id]
  refine ⟨?_, ?_, ?_⟩
  · intro hon hweight
    have hkept := h.weight
    rw [StoredRecord.reconciled_weight] at hkept
    cases hchange : Plan.weightChange old new b e with
    | some w =>
      obtain ⟨hw, -, -⟩ := Plan.weightChange_eq_some hchange
      rw [hchange, hw] at hkept
      cases deferred with
      | false => exact .inl hkept
      | true =>
        refine .inr (List.mem_append_right _ (mem_waiting.mpr ⟨rfl, ?_, hid⟩))
        rw [hw]
    | none =>
      -- the weight is not planned because it is the one that was read
      obtain ⟨-, hsame⟩ := Plan.weightChange_eq_none hchange hon hweight
      rw [hchange] at hkept
      refine .inl ?_
      rw [hsame] at hweight ⊢
      rw [← hb.weight hweight, hkept]
      cases deferred <;> rfl
  · rw [h.remark, StoredRecord.reconciled_remark]
    unfold Plan.remarkChange
    split
    · rfl
    · rename_i hsame
      rw [← hb.remark]
      simpa using (by simpa using hsame : e.remarkText = b.remarkText).symm
  · rw [h.status, StoredRecord.reconciled_status]
    unfold Plan.statusChange
    split
    · rfl
    · rename_i hsame
      rw [← hb.status]
      simpa using (by simpa using hsame : e.status = b.status).symm

theorem isOpen_congr {z z' : Zone} (h : z'.weighting = z.weighting) (name : String) :
    z'.isOpen name = z.isOpen name := by
  unfold isOpen
  rw [h]

theorem Kept.succ (tracks : Tracks z₀ domain records t)
    (h : Kept z₀ records t.config new deferred n p z) (hr : records[n]? = some r)
    (he : new.entries[n]? = some e) (hb : Describes b r) {z' : Zone} (hw : Reworked r.id z z')
    (hr' : z'.record? r.id = some r')
    (ht : TouchedTo deferred (Plan.weightChange t.config new b e) (Plan.remarkChange b e)
      (Plan.statusChange b e) (r.reconciled t.config new e) r') :
    Kept z₀ records t.config new deferred (n + 1)
      { p with pending := p.pending ++
          waiting deferred r.id (Plan.weightChange t.config new b e) } z' := by
  have hcore : ∀ a, new.entries[n]? = some a →
      (z'.record? r.id).map (·.core) = some (r.reconciled t.config new a).core := by
    intro a ha
    obtain rfl : e = a := Option.some.inj (he.symm.trans ha)
    rw [hr', Option.map_some, ht.core]
  refine ⟨h.toStage.succ tracks hr hw hcore, h.ids, h.known, ?_, ?_⟩
  · intro i s a hi hs ha
    rcases Nat.lt_succ_iff_lt_or_eq.mp hi with hi | rfl
    · obtain ⟨s', hs', hadorned⟩ := h.adorned i s a hi hs ha
      have hne : s.id ≠ r.id := fun heq => Nat.ne_of_lt hi (tracks.index_eq hs hr heq)
      refine ⟨s', ?_, hadorned.mono (List.subset_append_left _ _)⟩
      rw [hw.others s.id hne, hs']
    · obtain rfl : r = s := Option.some.inj (hr.symm.trans hs)
      obtain rfl : e = a := Option.some.inj (he.symm.trans ha)
      exact ⟨r', hr', ht.adorned hb p.pending⟩
  · intro q hq
    rcases List.mem_append.mp hq with hq | hq
    · exact h.waits q hq
    · obtain ⟨hdeferred, hweight, hid⟩ := mem_waiting.mp hq
      refine ⟨hdeferred, n, e, ?_, he, (Plan.weightChange_eq_some hweight).1⟩
      rw [h.ids, List.getElem?_map, hr, hid]
      rfl

/-- Weight, remark and status of a record whose core has been seen to. -/
theorem Kept.touch (tracks : Tracks z₀ domain records t)
    (h : Kept z₀ records t.config new deferred n p z) (hr : records[n]? = some r)
    (he : new.entries[n]? = some e) (hb : Describes b r) {z₁ : Zone} (hw : Reworked r.id z z₁)
    (hr₁ : z₁.record? r.id = some (r.reconciled t.config new e))
    (sure : z₀.failures = [] ∨ ∀ e z', err e z')
    (hinv : ∀ c z', Stage z₀ records t.config new (n + 1) z' → inv c z')
    (hclosed : deferred = false → new.weighting.isOn = true →
      z₀.isOpen (fullName (r.reconciled t.config new e).host r.domain) = false →
        ∀ e z', err e z') :
    (touch deferred r.id (Plan.weightChange t.config new b e) (Plan.remarkChange b e)
      (Plan.statusChange b e) p).Ensures remote inv
      (Kept z₀ records t.config new deferred (n + 1)) err z₁ := by
  have hstage : ∀ z', Touched r.id z₁ z' → Stage z₀ records t.config new (n + 1) z' := by
    intro z' ht
    refine h.toStage.succ tracks hr (hw.trans ht.reworked) ?_
    intro a ha
    obtain rfl : e = a := Option.some.inj (he.symm.trans ha)
    rw [core_of_cores ht.cores, hr₁]
    rfl
  refine ensures_touch hw.tidy ?_ (fun c z' ht => hinv c z' (hstage z' ht)) ?_ ?_ ?_
  · rw [hw.failures, h.failures]
    exact sure
  · intro hnone
    rw [hr₁] at hnone
    cases hnone
  · intro w s hnow hweight hs hopen
    obtain rfl := Option.some.inj (hr₁.symm.trans hs)
    refine hclosed hnow (Plan.weightChange_eq_some hweight).2.1 ?_
    rw [isOpen_congr (hw.weighting.trans h.weighting), StoredRecord.reconciled_domain] at hopen
    exact hopen
  · intro z' ht hkept
    obtain ⟨r', hr', hto⟩ := hkept _ hr₁
    exact h.succ tracks hr he hb (hw.trans ht.reworked) hr' hto

/-- The work on an entry that is kept sees to its record. -/
theorem ensures_kept (tracks : Tracks z₀ domain records t)
    (h : Kept z₀ records t.config new deferred n p z) (hr : records[n]? = some r)
    (he : new.entries[n]? = some e) (hb : Describes b r)
    (sure : z₀.failures = [] ∨ ∀ e z', err e z')
    (hinv : ∀ c z', Stage z₀ records t.config new n z' ∨
      Stage z₀ records t.config new (n + 1) z' → inv c z')
    (hclosed : deferred = false → new.weighting.isOn = true →
      z₀.isOpen (fullName (r.reconciled t.config new e).host r.domain) = false →
        ∀ e z', err e z') :
    (runActions new deferred p (Plan.reconcile t.config new n r.id b e)).Ensures remote inv
      (Kept z₀ records t.config new deferred (n + 1)) err z := by
  have hfound := h.todo n r (Nat.le_refl n) hr
  have hnext : ∀ c z', Stage z₀ records t.config new (n + 1) z' → inv c z' :=
    fun c z' hs => hinv c z' (.inr hs)
  -- whether the core is planned to be checked is what the record itself says
  have hcheck : Plan.coreChanges t.config new b e =
      (t.config.sharedDiffers new || r.value != e.value || r.ttl != e.ttl) := by
    rw [Plan.coreChanges, hb.value, hb.ttl]
  refine ensures_planned he ?_ ?_
  · rw [runReconcile_eq, Dialogue.ensures_bind]
    refine ensures_reconcileCore h.tidy (by rw [h.failures]; exact sure)
      (fun c => hinv c z (.inl h.toStage)) ?_ ?_ ?_
    · intro s hs hmatches
      obtain rfl : r = s := Option.some.inj (hfound.symm.trans hs)
      rw [hcheck] at hmatches
      have hsame : r.reconciled t.config new e = r := by
        unfold StoredRecord.reconciled
        rw [hmatches]
        rfl
      refine h.touch tracks hr he hb (.refl h.tidy r.id) ?_ sure hnext hclosed
      rw [hsame, hfound]
    · intro s hs hmatches c
      obtain rfl : r = s := Option.some.inj (hfound.symm.trans hs)
      rw [hcheck] at hmatches
      have hrewritten : r.reconciled t.config new e = r.rewritten new e := by
        unfold StoredRecord.reconciled
        rw [hmatches]
        rfl
      have hw := reworked_rewritten h.tidy new e r.id c
      have hr₁ := record?_note_edit hfound (f := .rewritten new e) (fun _ => rfl) c
      rw [← hrewritten] at hr₁
      refine ⟨?_, h.touch tracks hr he hb hw hr₁ sure hnext hclosed⟩
      intro c'
      refine hnext c' _ (h.toStage.succ tracks hr hw ?_)
      intro a ha
      obtain rfl : e = a := Option.some.inj (he.symm.trans ha)
      rw [hr₁]
      rfl
    · -- a tracked record has been read, so it is there and can be fetched
      intro hgone
      rcases hgone with hnone | hfails
      · rw [hfound] at hnone
        cases hnone
      · rw [h.failures] at hfails
        exact absurd tracks.allows hfails
  · intro hcore hweight hremark hstatus
    have hsame : r.reconciled t.config new e = r := by
      unfold StoredRecord.reconciled
      rw [← hcheck, hcore]
      rfl
    have hto : TouchedTo deferred (Plan.weightChange t.config new b e) (Plan.remarkChange b e)
        (Plan.statusChange b e) (r.reconciled t.config new e) r := by
      rw [hweight, hremark, hstatus, hsame]
      exact .refl deferred r
    have hsucc := h.succ tracks hr he hb (.refl h.tidy r.id) hfound hto
    rw [hweight] at hsucc
    simpa [waiting] using hsucc

theorem Kept.zero (tracks : Tracks z₀ domain records t) :
    Kept z₀ records t.config new deferred 0 ⟨t.id.ids, [], none⟩ z₀ := by
  refine ⟨.zero tracks, tracks.ids, rfl, ?_, ?_⟩
  · intro _ _ _ h
    exact absurd h (Nat.not_lt_zero _)
  · intro q hq
    cases hq

section

variable (tracks : Tracks z₀ domain records t) (sure : z₀.failures = [] ∨ ∀ e z', err e z')
  (hinv : ∀ c n z', n ≤ records.length → n ≤ new.entries.length →
    Stage z₀ records t.config new n z' → inv c z')
  (hclosed : ∀ (i : Nat) (r : StoredRecord) (e : Entry), records[i]? = some r →
    new.entries[i]? = some e → deferred = false → new.weighting.isOn = true →
    z₀.isOpen (fullName (r.reconciled t.config new e).host r.domain) = false →
      ∀ e z', err e z')
include tracks sure hinv hclosed

/-- The work on any entry that is kept, as a plan lists it. -/
theorem ensures_reconcile_kept (i : Nat) (b : Entry) (id : String) (a : Entry) (p : Progress)
    (z : Zone) (hb : (t.config.entries.zip t.id.ids)[i]? = some (b, id))
    (ha : new.entries[i]? = some a) (h : Kept z₀ records t.config new deferred i p z) :
    (runActions new deferred p (Plan.reconcile t.config new i id b a)).Ensures remote inv
      (Kept z₀ records t.config new deferred (i + 1)) err z := by
  obtain ⟨r, hr, rfl, hdescribes⟩ := tracks.zip_getElem? hb
  have hi := (List.getElem?_eq_some_iff.mp hr).1
  have hi' := (List.getElem?_eq_some_iff.mp ha).1
  refine ensures_kept tracks h hr ha hdescribes sure ?_ (hclosed i r a hr ha)
  rintro c z' (hstage | hstage)
  · exact hinv c i z' (by omega) (by omega) hstage
  · exact hinv c (i + 1) z' hi hi' hstage

/-- All work on the first `k` entries that are kept. -/
theorem ensures_reconciles_kept {k : Nat} (hk : k ≤ records.length)
    (hk' : k ≤ new.entries.length) :
    (runActions new deferred ⟨t.id.ids, [], none⟩ (Plan.actionsFrom t.config new 0
      ((t.config.entries.zip t.id.ids).take k) (new.entries.take k))).Ensures remote inv
      (Kept z₀ records t.config new deferred k) err z₀ := by
  have hzip := tracks.length_zip
  have hzero : 0 + k = k := Nat.zero_add k
  suffices hall : (runActions new deferred ⟨t.id.ids, [], none⟩ (Plan.actionsFrom t.config new 0
      (((t.config.entries.zip t.id.ids).drop 0).take k)
      ((new.entries.drop 0).take k))).Ensures remote inv
      (Kept z₀ records t.config new deferred (0 + k)) err z₀ by
    rw [hzero] at hall
    exact hall
  exact ensures_reconciles (ensures_reconcile_kept tracks sure hinv hclosed) (by omega)
    (by omega) (.zero tracks)

end

end

end Zone

end WeightedDns
