import WeightedDns.Record.ResourceId
import WeightedDns.Zone

/-!
# Tidy zones

In every zone that can come about the records have different IDs, each of them a number that has
been given out (`Reachable.tidy`). In such a zone a change of one record is a map over the records
(`change_of_record?`), and the record with an ID is known after every operation in terms of those
before it: `record?_edit`, `record?_store` and `record?_remove`.

The core of a record is what a request to change it sets, together with its ID and its zone:
everything but weight, status and remark.
-/

namespace WeightedDns

/-- A record without its weight, status and remark. -/
def StoredRecord.core (r : StoredRecord) : StoredRecord :=
  { r with weight := none, status := .enabled, remark := none }

namespace Zone

/-- Change the record with an ID. -/
def edit (z : Zone) (id : String) (f : StoredRecord → StoredRecord) : Zone :=
  { z with records := z.records.map fun r => if r.id = id then f r else r }

/-- The cores of the records. -/
def cores (z : Zone) : List StoredRecord := z.records.map (·.core)

/-- The ID that the next record gets. -/
def freshId (z : Zone) : String := toString z.nextId

/-- The records have different IDs, each a number below the next one to be given out. -/
structure Tidy (z : Zone) : Prop where
  ids_nodup : (z.records.map (·.id)).Nodup
  ids_numbered : ∀ r ∈ z.records, ∃ n, n < z.nextId ∧ r.id = toString n

/-! ## Numbers as IDs -/

theorem toList_toString (n : Nat) : (toString n).toList = Nat.toDigits 10 n := by
  rw [Nat.toString_eq_ofList_toDigits, String.toList_ofList]

theorem toString_inj {m n : Nat} (h : toString m = toString n) : m = n := by
  have hdigits : Nat.toDigits 10 m = Nat.toDigits 10 n := by
    rw [← toList_toString, ← toList_toString, h]
  rw [← Nat.ofDigitChars_ten_toDigits (n := m), hdigits, Nat.ofDigitChars_ten_toDigits]

/-- A digit is neither blank nor a comma. -/
theorem isRecordId_toString (n : Nat) : ResourceId.isRecordId (toString n) = true := by
  have hdigit : ∀ c ∈ (toString n).toList, c.isDigit = true := by
    intro c hc
    rw [toList_toString] at hc
    exact Nat.isDigit_of_mem_toDigits (by decide) (by decide) hc
  have hblank : Text.isBlank (toString n) = false := by
    obtain ⟨c, cs, hcs⟩ : ∃ c cs, (toString n).toList = c :: cs := by
      rw [toList_toString]
      exact List.exists_cons_of_ne_nil Nat.toDigits_ne_nil
    have hc := hdigit c (by rw [hcs]; exact List.mem_cons_self)
    simp only [Char.isDigit, Bool.and_eq_true, decide_eq_true_eq] at hc
    have hlow : 48 ≤ c.toNat := hc.1
    have hhigh : c.toNat ≤ 57 := hc.2
    simp only [Text.isBlank, hcs, List.all_cons, Bool.and_eq_false_iff]
    refine .inl ?_
    simp only [Text.isBlankChar, Text.blankRanges, List.any_cons, List.any_nil, Bool.or_false,
      Bool.or_eq_false_iff, Bool.and_eq_false_iff, decide_eq_false_iff_not]
    omega
  have hcomma : (toString n).toList.contains ',' = false := by
    rw [List.contains_eq_mem, decide_eq_false_iff_not]
    intro hmem
    exact absurd (hdigit ',' hmem) (by decide)
  rw [ResourceId.isRecordId, hblank, hcomma]
  rfl

/-! ## Looking up records -/

theorem id_of_record? {z : Zone} {id : String} {r : StoredRecord} (h : z.record? id = some r) :
    r.id = id := by
  simpa [record?] using List.find?_some h

theorem mem_of_record? {z : Zone} {id : String} {r : StoredRecord} (h : z.record? id = some r) :
    r ∈ z.records :=
  List.mem_of_find?_eq_some h

theorem record?_eq_none_iff {z : Zone} {id : String} :
    z.record? id = none ↔ ∀ r ∈ z.records, r.id ≠ id := by
  simp [record?]

/-- With different IDs a record is found under its own. -/
theorem find?_id_of_mem {records : List StoredRecord} (hnodup : (records.map (·.id)).Nodup)
    {r : StoredRecord} (h : r ∈ records) : records.find? (·.id == r.id) = some r := by
  induction records with
  | nil => simp at h
  | cons s rest ih =>
    simp only [List.map_cons, List.nodup_cons] at hnodup
    rcases List.mem_cons.mp h with rfl | hmem
    · simp
    · have hne : s.id ≠ r.id := by
        intro heq
        exact hnodup.1 (heq ▸ List.mem_map_of_mem hmem)
      simp [hne, ih hnodup.2 hmem]

theorem Tidy.record?_of_mem {z : Zone} (tidy : z.Tidy) {r : StoredRecord} (h : r ∈ z.records) :
    z.record? r.id = some r :=
  find?_id_of_mem tidy.ids_nodup h

/-- The next number is not yet the ID of a record. -/
theorem Tidy.record?_freshId {z : Zone} (tidy : z.Tidy) : z.record? z.freshId = none := by
  rw [record?_eq_none_iff]
  intro r hr heq
  obtain ⟨n, hn, hid⟩ := tidy.ids_numbered r hr
  have hsame : n = z.nextId := toString_inj (hid.symm.trans heq)
  omega

/-! ## Records after operations -/

@[simp] theorem note_records (z : Zone) (c : Call) : (z.note c).records = z.records := rfl

@[simp] theorem note_record? (z : Zone) (c : Call) (id : String) :
    (z.note c).record? id = z.record? id := rfl

theorem record?_edit (z : Zone) {id : String} {f : StoredRecord → StoredRecord}
    (keeps : ∀ r, (f r).id = r.id) (id' : String) :
    (z.edit id f).record? id' = if id' = id then (z.record? id).map f else z.record? id' := by
  have hid : ∀ r : StoredRecord, (if r.id = id then f r else r).id = r.id := by
    intro r
    split
    · exact keeps r
    · rfl
  simp only [record?, edit, List.find?_map, Function.comp_def, hid]
  by_cases h : id' = id
  · subst h
    rw [if_pos rfl]
    cases hfind : z.records.find? (·.id == id') with
    | none => rfl
    | some r =>
      have hr : r.id = id' := by simpa using List.find?_some hfind
      simp [hr]
  · rw [if_neg h]
    cases hfind : z.records.find? (·.id == id') with
    | none => rfl
    | some r =>
      have hr : r.id = id' := by simpa using List.find?_some hfind
      simp [hr, h]

/-- The record that is stored for a new one. -/
def stored (id : String) (r : NewRecord) : StoredRecord where
  id := id
  domain := r.domain
  host := r.host
  type := r.type
  value := r.value
  ttl := r.ttl
  line := r.line
  weight := some 1
  status := .enabled
  remark := none
  priority := r.priority
  locked := false

theorem store_records (z : Zone) (r : NewRecord) :
    (z.store r).records = z.records ++ [stored z.freshId r] := rfl

theorem Tidy.record?_store {z : Zone} (tidy : z.Tidy) (r : NewRecord) (id : String) :
    (z.store r).record? id =
      if id = z.freshId then some (stored id r) else z.record? id := by
  have hsplit : (z.store r).record? id =
      (z.record? id).or ([stored z.freshId r].find? (·.id == id)) := by
    simp [record?, store_records, List.find?_append]
  rw [hsplit]
  by_cases h : id = z.freshId
  · subst h
    simp [tidy.record?_freshId, stored]
  · have hne : (stored z.freshId r).id ≠ id := fun heq => h heq.symm
    simp [h, hne]

theorem record?_remove (z : Zone) (id id' : String) :
    (z.remove id).record? id' = if id' = id then none else z.record? id' := by
  by_cases h : id' = id
  · subst h
    rw [if_pos rfl, record?_eq_none_iff]
    intro r hr
    simpa [remove] using (List.mem_filter.mp hr).2
  · rw [if_neg h]
    simp only [record?, remove, List.find?_filter]
    congr 1
    funext r
    by_cases hr : r.id = id'
    · simp [hr, h]
    · simp [hr]

/-! ## Changing one record -/

theorem changeFirst?_eq_none {id : String} {f : StoredRecord → StoredRecord}
    {records : List StoredRecord} (h : ∀ r ∈ records, r.id ≠ id) :
    changeFirst? id f records = none := by
  induction records with
  | nil => rfl
  | cons r rest ih =>
    have hr : r.id ≠ id := h r List.mem_cons_self
    have hrest : ∀ s ∈ rest, s.id ≠ id := fun s hs => h s (List.mem_cons_of_mem _ hs)
    simp [changeFirst?, hr, ih hrest]

theorem changeFirst?_eq_map {id : String} {f : StoredRecord → StoredRecord}
    {records : List StoredRecord} (hnodup : (records.map (·.id)).Nodup)
    (h : ∃ r ∈ records, r.id = id) :
    changeFirst? id f records = some (records.map fun r => if r.id = id then f r else r) := by
  induction records with
  | nil => simp at h
  | cons r rest ih =>
    simp only [List.map_cons, List.nodup_cons] at hnodup
    by_cases hr : r.id = id
    · have hrest : ∀ s ∈ rest, s.id ≠ id := by
        intro s hs heq
        exact hnodup.1 (by rw [hr, ← heq]; exact List.mem_map_of_mem hs)
      have hsame : (rest.map fun s => if s.id = id then f s else s) = rest := by
        conv => rhs; rw [← List.map_id rest]
        exact List.map_congr_left fun s hs => if_neg (hrest s hs)
      simp [changeFirst?, hr, hsame]
    · have hin : ∃ s ∈ rest, s.id = id := by
        obtain ⟨s, hs, heq⟩ := h
        rcases List.mem_cons.mp hs with rfl | hs
        · exact absurd heq hr
        · exact ⟨s, hs, heq⟩
      simp [changeFirst?, hr, ih hnodup.2 hin]

theorem Tidy.change_of_record? {z : Zone} (tidy : z.Tidy) {id : String} {r : StoredRecord}
    (h : z.record? id = some r) (f : StoredRecord → StoredRecord) (c : Call) :
    z.change id f c = (.ok (), (z.edit id f).note c) := by
  have hmap := changeFirst?_eq_map (f := f) tidy.ids_nodup ⟨r, mem_of_record? h, id_of_record? h⟩
  simp [change, hmap, edit]

theorem change_of_record?_none {z : Zone} {id : String} (h : z.record? id = none)
    (f : StoredRecord → StoredRecord) (c : Call) :
    z.change id f c = (error (missing id), z) := by
  simp [change, changeFirst?_eq_none (record?_eq_none_iff.mp h)]

/-! ## Tidiness is kept -/

theorem Tidy.note {z : Zone} (tidy : z.Tidy) (c : Call) : (z.note c).Tidy :=
  ⟨tidy.ids_nodup, tidy.ids_numbered⟩

theorem Tidy.edit {z : Zone} (tidy : z.Tidy) {id : String} {f : StoredRecord → StoredRecord}
    (keeps : ∀ r, (f r).id = r.id) : (z.edit id f).Tidy := by
  have hid : ∀ r : StoredRecord, (if r.id = id then f r else r).id = r.id := by
    intro r
    split
    · exact keeps r
    · rfl
  refine ⟨?_, ?_⟩
  · simpa [Zone.edit, Function.comp_def, hid] using tidy.ids_nodup
  · intro r hr
    obtain ⟨s, hs, rfl⟩ := List.mem_map.mp hr
    rw [hid]
    exact tidy.ids_numbered s hs

theorem Tidy.store {z : Zone} (tidy : z.Tidy) (r : NewRecord) : (z.store r).Tidy := by
  refine ⟨?_, ?_⟩
  · rw [store_records, List.map_append, List.nodup_append]
    refine ⟨tidy.ids_nodup, by simp, ?_⟩
    intro id hid id' hid' heq
    obtain ⟨s, hs, rfl⟩ := List.mem_map.mp hid
    have hlast : id' = z.freshId := by simpa [stored] using hid'
    exact record?_eq_none_iff.mp tidy.record?_freshId s hs (heq.trans hlast)
  · intro s hs
    rw [store_records, List.mem_append, List.mem_singleton] at hs
    rcases hs with hs | rfl
    · obtain ⟨n, hn, hid⟩ := tidy.ids_numbered s hs
      exact ⟨n, Nat.lt_succ_of_lt hn, hid⟩
    · exact ⟨z.nextId, Nat.lt_succ_self _, rfl⟩

theorem Tidy.remove {z : Zone} (tidy : z.Tidy) (id : String) : (z.remove id).Tidy :=
  ⟨(List.filter_sublist.map _).nodup tidy.ids_nodup,
    fun r hr => tidy.ids_numbered r (List.mem_filter.mp hr).1⟩

theorem Tidy.change {z : Zone} (tidy : z.Tidy) {id : String} {f : StoredRecord → StoredRecord}
    (keeps : ∀ r, (f r).id = r.id) (c : Call) : (z.change id f c).2.Tidy := by
  cases h : z.record? id with
  | none => rw [change_of_record?_none h]; exact tidy
  | some r => rw [tidy.change_of_record? h]; exact (tidy.edit keeps).note c

/-- No call makes a tidy zone untidy. -/
theorem Tidy.answer {z : Zone} (tidy : z.Tidy) (c : Call) : (z.answer c).2.Tidy := by
  unfold Zone.answer
  split
  · exact tidy
  · cases c with
    | describeDomain name => simp only [perform]; split <;> exact tidy
    | listRecords name query request => exact tidy
    | describeRecord id => simp only [perform]; split <;> exact tidy
    | addRecord r =>
      simp only [perform]
      split
      · exact tidy
      · exact (tidy.store r).note _
    | changeRecord r =>
      refine tidy.change ?_ _
      exact fun _ => rfl
    | deleteRecord id =>
      simp only [perform]
      split
      · exact (tidy.remove id).note _
      · exact tidy
    | setWeight id weight =>
      simp only [perform]
      split
      · exact tidy
      · split
        · refine tidy.change ?_ _
          exact fun _ => rfl
        · exact tidy
    | setRemark id remark =>
      refine tidy.change ?_ _
      exact fun _ => rfl
    | setStatus id status =>
      refine tidy.change ?_ _
      exact fun _ => rfl
    | setWeighting r => exact ⟨tidy.ids_nodup, tidy.ids_numbered⟩
    | listWeightedHosts name host request => exact tidy

/-- Every zone that can come about is tidy. -/
theorem Reachable.tidy {z : Zone} (h : z.Reachable) : z.Tidy := by
  induction h with
  | empty => exact ⟨List.nodup_nil, by simp [Zone.empty]⟩
  | answer c _ ih => exact ih.answer c
  | seed host type value ttl _ ih => exact ih.store _
  | remove id _ ih => exact ih.remove id
  | fail kind e _ ih => exact ⟨ih.ids_nodup, ih.ids_numbered⟩
  | recover _ ih => exact ⟨ih.ids_nodup, ih.ids_numbered⟩

end Zone

end WeightedDns
