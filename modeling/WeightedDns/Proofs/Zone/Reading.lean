import WeightedDns.Proofs.Zone.Step

/-!
# Reading sets from a zone

In a tidy zone, reading a set yields the records that are there, in the order of the IDs, with
what they share taken from the first of them and the weights taken from the listing
(`ensures_read?`). Where the listing is complete every weight is the one that is stored
(`fillWeight_unweighted`). Whoever answers, a set is put together with one entry for each record
(`exists_of_run_assemble`).
-/

namespace WeightedDns

open Lifecycle

namespace Lifecycle

/-! ## Sets that are put together, whoever answers -/

section

variable {σ : Type} {remote : Remote σ} {s s' : σ} {domain : String}
  {records : List StoredRecord}

theorem fillWeight_id (listing : List StoredRecord) (r : StoredRecord) :
    (fillWeight listing r).id = r.id := by
  unfold fillWeight
  split <;> rfl

theorem ids_of_run_completeWeights {host : String} {type : RecordType}
    {complete : List StoredRecord}
    (hrun : (completeWeights domain host type records).run remote s = (.ok complete, s')) :
    complete.map (·.id) = records.map (·.id) := by
  unfold completeWeights at hrun
  split at hrun
  · obtain ⟨listing, s₁, -, hfilled⟩ := Dialogue.exists_run_of_bind hrun
    obtain ⟨hvalue, -⟩ := Prod.mk.inj hfilled
    rw [← Except.ok.inj hvalue, List.map_map]
    exact List.map_congr_left fun r _ => fillWeight_id listing r
  · obtain ⟨hvalue, -⟩ := Prod.mk.inj hrun
    rw [← Except.ok.inj hvalue]

theorem ids_of_run_resourceId {ids : List String} {id : ResourceId}
    (hrun : (resourceId ids).run remote s = (.ok id, s')) : id.ids = ids := by
  unfold resourceId ResourceId.new? at hrun
  by_cases hids : (!ids.isEmpty && ids.all ResourceId.isRecordId) = true
  · rw [if_pos hids] at hrun
    obtain ⟨hvalue, -⟩ := Prod.mk.inj hrun
    rw [← Except.ok.inj hvalue]
  · rw [if_neg hids] at hrun
    cases hrun

/-- A set that is put together has one entry for each of the records, and is of the zone that was
named. -/
theorem exists_of_run_assemble {t : TrackedSet}
    (hrun : (assemble domain records).run remote s = (.ok t, s')) :
    ∃ complete : List StoredRecord, complete.map (·.id) = records.map (·.id) ∧
      t.id.ids = complete.map (·.id) ∧ t.config.entries = complete.map entryOf ∧
      t.config.domain = domain := by
  cases records with
  | nil => cases hrun
  | cons first rest =>
    obtain ⟨complete, s₁, hcomplete, hrest⟩ := Dialogue.exists_run_of_bind hrun
    obtain ⟨weighting, s₂, -, hrest⟩ := Dialogue.exists_run_of_bind hrest
    obtain ⟨id, s₃, hid, hvalue⟩ := Dialogue.exists_run_of_bind hrest
    obtain ⟨hset, -⟩ := Prod.mk.inj hvalue
    obtain rfl := Except.ok.inj hset
    exact ⟨complete, ids_of_run_completeWeights hcomplete, ids_of_run_resourceId hid, rfl, rfl⟩

theorem ids_of_run_assemble {t : TrackedSet}
    (hrun : (assemble domain records).run remote s = (.ok t, s')) :
    t.id.ids = records.map (·.id) := by
  obtain ⟨complete, hcomplete, hids, -, -⟩ := exists_of_run_assemble hrun
  exact hids.trans hcomplete

end

end Lifecycle

/-- A record as a fetch reports it. -/
def StoredRecord.unweighted (r : StoredRecord) : StoredRecord := { r with weight := none }

namespace Zone

variable {z : Zone} {inv : Call → Zone → Prop} {err : LifecycleError → Zone → Prop}

/-- The records that are there under some IDs. -/
def fetched (z : Zone) (ids : List String) : List StoredRecord := ids.filterMap z.record?

/-- The listing that weights are taken from. -/
def weightListing (z : Zone) (domain : String) (first : StoredRecord) : List StoredRecord :=
  (z.matching domain ⟨some first.host, some first.type, none⟩).take walkReach

/-- The entry that is read from a record. -/
def entryRead (z : Zone) (domain : String) (first r : StoredRecord) : Entry :=
  entryOf (fillWeight (z.weightListing domain first) r.unweighted)

/-- The tracked set that is read from records, with what they share taken from `first`. -/
def reading (z : Zone) (domain : String) (first : StoredRecord) (records : List StoredRecord) :
    TrackedSet where
  id := ⟨records.map (·.id)⟩
  config := {
    domain
    host := first.host
    type := first.type
    line := first.line
    priority := first.priority
    weighting := .ofBool (z.isOpen (fullName first.host domain))
    entries := records.map (z.entryRead domain first) }

theorem zip_reading (z : Zone) (domain : String) (first : StoredRecord)
    (records : List StoredRecord) :
    (z.reading domain first records).config.entries.zip (z.reading domain first records).id.ids =
      records.map fun r => (z.entryRead domain first r, r.id) :=
  List.zip_map'

theorem length_reading (z : Zone) (domain : String) (first : StoredRecord)
    (records : List StoredRecord) :
    (z.reading domain first records).id.ids.length =
      (z.reading domain first records).config.entries.length := by
  simp [reading]

theorem mem_fetched {ids : List String} {r : StoredRecord} (h : r ∈ z.fetched ids) :
    r ∈ z.records ∧ r.id ∈ ids := by
  obtain ⟨id, hid, hr⟩ := List.mem_filterMap.mp h
  exact ⟨mem_of_record? hr, by rw [id_of_record? hr]; exact hid⟩

/-- The IDs of the records that are there are those asked for, as far as they have records. -/
theorem map_id_fetched_eq_filter (z : Zone) (ids : List String) :
    (z.fetched ids).map (·.id) = ids.filter fun id => (z.record? id).isSome := by
  induction ids with
  | nil => rfl
  | cons id ids ih =>
    rw [fetched, List.filterMap_cons, List.filter_cons]
    cases hr : z.record? id with
    | none => exact ih
    | some r =>
      dsimp only
      rw [List.map_cons, id_of_record? hr]
      exact congrArg (id :: ·) ih

theorem map_id_fetched {ids : List String} (h : ∀ id ∈ ids, (z.record? id).isSome) :
    (z.fetched ids).map (·.id) = ids := by
  rw [map_id_fetched_eq_filter]
  exact List.filter_eq_self.mpr h

theorem map_id_fetched_sublist (z : Zone) (ids : List String) :
    ((z.fetched ids).map (·.id)).Sublist ids := by
  rw [map_id_fetched_eq_filter]
  exact List.filter_sublist

/-- Where the first records are there, each is in its place. -/
theorem fetched_getElem?_of_lt {ids : List String} {k : Nat}
    (h : ∀ id ∈ ids.take k, (z.record? id).isSome) {i : Nat} (hi : i < k) :
    (z.fetched ids)[i]? = ids[i]?.bind z.record? := by
  induction ids generalizing k i with
  | nil => rfl
  | cons id ids ih =>
    cases k with
    | zero => exact absurd hi (Nat.not_lt_zero i)
    | succ k =>
      rw [List.take_succ_cons] at h
      obtain ⟨r, hr⟩ := Option.isSome_iff_exists.mp (h id List.mem_cons_self)
      rw [fetched, List.filterMap_cons, hr]
      cases i with
      | zero => exact hr.symm
      | succ i =>
        exact ih (fun id' hid' => h id' (List.mem_cons_of_mem _ hid')) (Nat.lt_of_succ_lt_succ hi)

theorem fetched_getElem? {ids : List String} (h : ∀ id ∈ ids, (z.record? id).isSome) (i : Nat) :
    (z.fetched ids)[i]? = ids[i]?.bind z.record? :=
  fetched_getElem?_of_lt (fun id hid => h id (List.mem_of_mem_take hid)) (Nat.lt_succ_self i)

/-! ## The dialogues -/

theorem ensures_fetchAll {ids : List String} {post : List StoredRecord → Zone → Prop}
    (sure : z.failures = [] ∨ ∀ e z', err e z') (hinv : ∀ c, c.writes = false → inv c z)
    (hfound : z.failures.lookup .describeRecord = none →
      post ((z.fetched ids).map (·.unweighted)) z)
    (hhidden : z.failures.lookup .describeRecord ≠ none → post [] z) :
    (fetchAll ids).Ensures remote inv post err z := by
  -- by induction on the IDs; either every fetch finds what is there or every one is hidden
  induction ids generalizing post with
  | nil =>
    rw [fetchAll, Dialogue.pure_eq, Dialogue.ensures_done]
    by_cases h : z.failures.lookup .describeRecord = none
    · exact hfound h
    · exact hhidden h
  | cons id ids ih =>
    rw [fetchAll, Dialogue.ensures_bind]
    refine ensures_fetch? sure hinv ?_ ?_
    · intro r hr hallows
      rw [Dialogue.ensures_bind]
      refine ih ?_ fun h => absurd hallows h
      intro _
      rw [Dialogue.pure_eq, Dialogue.ensures_done]
      simpa [fetched, hr, StoredRecord.unweighted] using hfound hallows
    · intro hnone
      rw [Dialogue.ensures_bind]
      refine ih ?_ ?_
      · intro hallows
        have hr : z.record? id = none := by
          rcases hnone with hr | hr
          · exact hr
          · exact absurd hallows hr
        rw [Dialogue.pure_eq, Dialogue.ensures_done]
        simpa [fetched, hr] using hfound hallows
      · intro hfail
        rw [Dialogue.pure_eq, Dialogue.ensures_done]
        simpa using hhidden hfail

theorem ensures_readWeighting {domain host : String} {post : Switch → Zone → Prop}
    (sure : z.failures = [] ∨ ∀ e z', err e z') (hinv : ∀ c, c.writes = false → inv c z)
    (hpost : post (.ofBool (z.isOpen (fullName host domain))) z) :
    (readWeighting domain host).Ensures remote inv post err z := by
  unfold readWeighting
  rw [Dialogue.ensures_bind, Dialogue.ensures_mapError]
  refine ensures_weightedHost? hinv ?_ ?_
  · intro e he
    rcases sure with hnone | hany
    · rw [lookup_failures_eq_none hnone] at he
      cases he
    · exact hany _ _
  · intro found hfound
    rw [Dialogue.pure_eq, Dialogue.ensures_done]
    rw [← hfound] at hpost
    cases found <;> exact hpost

theorem ensures_completeWeights {domain : String} (first : StoredRecord)
    (records : List StoredRecord) {post : List StoredRecord → Zone → Prop}
    (sure : z.failures = [] ∨ ∀ e z', err e z') (hinv : ∀ c, c.writes = false → inv c z)
    (hne : records ≠ [])
    (hpost : post (records.map fun r => fillWeight (z.weightListing domain first) r.unweighted)
      z) :
    (completeWeights domain first.host first.type
      (records.map (·.unweighted))).Ensures remote inv post err z := by
  have hany : ((records.map (·.unweighted)).any (·.weight.isNone)) = true := by
    obtain ⟨r, rest, rfl⟩ := List.exists_cons_of_ne_nil hne
    simp [StoredRecord.unweighted]
  unfold completeWeights
  rw [if_pos hany, Dialogue.ensures_bind, Dialogue.ensures_mapError]
  refine ensures_allRecords hinv ?_ ?_
  · intro e he
    rcases sure with hnone | hany
    · rw [lookup_failures_eq_none hnone] at he
      cases he
    · exact hany _ _
  · intro _
    rw [Dialogue.pure_eq, Dialogue.ensures_done, List.map_map]
    exact hpost

/-- The IDs of records of a tidy zone make a resource ID. -/
theorem Tidy.resourceId_eq (tidy : z.Tidy) {ids : List String} (hne : ids ≠ [])
    (hall : ∀ id ∈ ids, (z.record? id).isSome) : resourceId ids = .done ⟨ids⟩ := by
  have hvalid : (!ids.isEmpty && ids.all ResourceId.isRecordId) = true := by
    simp only [Bool.and_eq_true, Bool.not_eq_true', List.isEmpty_eq_false_iff, List.all_eq_true]
    refine ⟨hne, ?_⟩
    intro id hid
    obtain ⟨r, hr⟩ := Option.isSome_iff_exists.mp (hall id hid)
    obtain ⟨n, -, hn⟩ := tidy.ids_numbered r (mem_of_record? hr)
    rw [← id_of_record? hr, hn]
    exact isRecordId_toString n
  unfold resourceId ResourceId.new?
  rw [if_pos hvalid]
  rfl

theorem ensures_assemble {domain : String} {first : StoredRecord} {rest : List StoredRecord}
    {post : TrackedSet → Zone → Prop} (tidy : z.Tidy)
    (sure : z.failures = [] ∨ ∀ e z', err e z') (hinv : ∀ c, c.writes = false → inv c z)
    (hmem : ∀ r ∈ first :: rest, r ∈ z.records)
    (hpost : post (z.reading domain first (first :: rest)) z) :
    (assemble domain ((first :: rest).map (·.unweighted))).Ensures remote inv post err z := by
  -- weights do not touch the IDs, so these make a resource ID as those of stored records do
  have hids : ((first :: rest).map fun r =>
      fillWeight (z.weightListing domain first) r.unweighted).map (·.id) =
        (first :: rest).map (·.id) := by
    rw [List.map_map]
    exact List.map_congr_left fun r _ => fillWeight_id _ _
  unfold assemble
  rw [List.map_cons]
  dsimp only
  rw [Dialogue.ensures_bind]
  refine ensures_completeWeights first (first :: rest) sure hinv (List.cons_ne_nil _ _) ?_
  rw [Dialogue.ensures_bind]
  refine ensures_readWeighting sure hinv ?_
  have hall : ∀ id ∈ (first :: rest).map (·.id), (z.record? id).isSome := by
    intro id hid
    obtain ⟨r, hr, rfl⟩ := List.mem_map.mp hid
    rw [tidy.record?_of_mem (hmem r hr)]
    rfl
  rw [Dialogue.ensures_bind, hids, tidy.resourceId_eq (by simp) hall]
  simp only [Dialogue.pure_eq, Dialogue.ensures_done]
  rw [List.map_map]
  exact hpost

/-- Reading yields the records that are there, or nothing where none is left. -/
theorem ensures_read? {id : ResourceId} {domain : String}
    {post : Option TrackedSet → Zone → Prop} (tidy : z.Tidy)
    (sure : z.failures = [] ∨ ∀ e z', err e z') (hinv : ∀ c, c.writes = false → inv c z)
    (hgone : z.fetched id.ids = [] ∨ z.failures.lookup .describeRecord ≠ none → post none z)
    (hread : ∀ first rest, z.fetched id.ids = first :: rest →
      z.failures.lookup .describeRecord = none →
        post (some (z.reading domain first (first :: rest))) z) :
    (read? id domain).Ensures remote inv post err z := by
  unfold read?
  rw [Dialogue.ensures_bind]
  refine ensures_fetchAll sure hinv ?_ ?_
  · intro hallows
    cases hf : z.fetched id.ids with
    | nil => exact hgone (.inl hf)
    | cons first rest =>
      have hne : ((first :: rest).map (·.unweighted)).isEmpty = false := rfl
      rw [hne, if_neg (by simp), Dialogue.ensures_bind]
      refine ensures_assemble tidy sure hinv ?_ (hread first rest hf hallows)
      intro r hr
      exact (mem_fetched (hf ▸ hr)).1
  · intro hfail
    exact hgone (.inr hfail)

theorem ensures_readBack {ids : List String} {s : RecordSet}
    {post : TrackedSet → Zone → Prop} (tidy : z.Tidy)
    (sure : z.failures = [] ∨ ∀ e z', err e z') (hinv : ∀ c, c.writes = false → inv c z)
    (hsize : ids.length ≠ s.entries.length → ∀ e, err e z)
    (hgone : z.fetched ids = [] ∨ z.failures.lookup .describeRecord ≠ none → ∀ e, err e z)
    (hread : ∀ first rest, z.fetched ids = first :: rest →
      z.failures.lookup .describeRecord = none →
      ids.length = s.entries.length → post (z.reading s.domain first (first :: rest)) z) :
    (readBack ⟨ids⟩ s).Ensures remote inv post err z := by
  unfold readBack
  split
  · rename_i hne
    exact hsize hne _
  · rename_i heq
    rw [Dialogue.ensures_bind]
    refine ensures_read? tidy sure hinv ?_ ?_
    · intro h
      exact hgone h _
    · intro first rest hf hallows
      exact hread first rest hf hallows (Decidable.not_not.mp heq)

/-! ## What is read -/

/-- What a successful reading says: the zone is as before, and the set is read from the records
that are there. -/
theorem Tidy.of_read? (tidy : z.Tidy) {id : ResourceId} {domain : String} {t : TrackedSet}
    {z' : Zone} (h : (read? id domain).run remote z = (.ok (some t), z')) :
    z' = z ∧ z.failures.lookup .describeRecord = none ∧
      ∃ first rest, z.fetched id.ids = first :: rest ∧
        t = z.reading domain first (first :: rest) := by
  have hread : (read? id domain).Ensures remote (fun _ _ => True)
      (fun found z' => z' = z ∧ ∀ t, found = some t →
        z.failures.lookup .describeRecord = none ∧
        ∃ first rest, z.fetched id.ids = first :: rest ∧
          t = z.reading domain first (first :: rest)) (fun _ _ => True) z := by
    refine ensures_read? tidy (.inr fun _ _ => trivial) (fun _ _ => trivial) ?_ ?_
    · intro _
      exact ⟨rfl, fun t ht => nomatch ht⟩
    · intro first rest hf hallows
      refine ⟨rfl, ?_⟩
      intro t ht
      exact ⟨hallows, first, rest, hf, (Option.some.inj ht).symm⟩
  obtain ⟨hz, hfound⟩ := hread.post_of_run h
  exact ⟨hz, hfound t rfl⟩

/-- Where nothing fails, reading yields the set of the records that are there. -/
theorem Tidy.run_read? (tidy : z.Tidy) (calm : z.failures = []) {ids : List String}
    {first : StoredRecord} {rest : List StoredRecord} (hfetched : z.fetched ids = first :: rest)
    (domain : String) :
    (read? ⟨ids⟩ domain).run remote z =
      (.ok (some (z.reading domain first (first :: rest))), z) := by
  have hread : (read? ⟨ids⟩ domain).Ensures remote (fun _ _ => True)
      (fun found z' => found = some (z.reading domain first (first :: rest)) ∧ z' = z)
      (fun _ _ => False) z := by
    refine ensures_read? tidy (.inl calm) (fun _ _ => trivial) ?_ ?_
    · rintro (hnil | hfails)
      · rw [hfetched] at hnil
        cases hnil
      · exact absurd (lookup_failures_eq_none calm _) hfails
    · intro first' rest' hfetched' _
      obtain ⟨rfl, rfl⟩ := List.cons.inj (hfetched.symm.trans hfetched')
      exact ⟨rfl, rfl⟩
  obtain ⟨found, z', hrun, rfl, rfl⟩ := hread.exists_run
  exact hrun

@[simp] theorem entryRead_value (z : Zone) (domain : String) (first r : StoredRecord) :
    (z.entryRead domain first r).value = r.value := rfl

@[simp] theorem entryRead_ttl (z : Zone) (domain : String) (first r : StoredRecord) :
    (z.entryRead domain first r).ttl = r.ttl := rfl

theorem remarkText_entryOf (r : StoredRecord) : (entryOf r).remarkText = r.remark.getD "" := by
  unfold entryOf Entry.remarkText
  cases hr : r.remark with
  | none => rfl
  | some remark =>
    by_cases h : remark = "" <;> simp [Option.filter, h]

@[simp] theorem entryRead_remarkText (z : Zone) (domain : String) (first r : StoredRecord) :
    (z.entryRead domain first r).remarkText = r.remark.getD "" :=
  remarkText_entryOf _

/-- A record that the listing reaches gets the weight that is stored. -/
theorem Tidy.fillWeight_unweighted (tidy : z.Tidy) {domain : String}
    {first r : StoredRecord} (hr : r ∈ z.records) (hdomain : r.domain = domain)
    (hhost : r.host = first.host) (htype : r.type = first.type)
    (hcount : z.records.length ≤ walkReach) :
    fillWeight (z.weightListing domain first) r.unweighted = r := by
  have hall : z.weightListing domain first =
      z.matching domain ⟨some first.host, some first.type, none⟩ := by
    refine List.take_of_length_le ?_
    exact Nat.le_trans (List.length_filter_le _ _) hcount
  -- the listing by host and type has the record, and IDs tell it from all others
  have hselected : selects domain ⟨some first.host, some first.type, none⟩ r = true := by
    have hholds : Text.holds first.host first.host = true :=
      Text.holds_iff.mpr (List.infix_refl _)
    simp [selects, hdomain, hhost, htype, hholds]
  have hfind : (z.weightListing domain first).find? (fun l => l.id == r.id) = some r := by
    rw [hall]
    refine find?_id_of_mem ?_ (List.mem_filter.mpr ⟨hr, hselected⟩)
    exact (List.filter_sublist.map _).nodup tidy.ids_nodup
  have hid : r.unweighted.id = r.id := rfl
  unfold fillWeight
  rw [hid, hfind]
  rfl

end Zone

end WeightedDns
