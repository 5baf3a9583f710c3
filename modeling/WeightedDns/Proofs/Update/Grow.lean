import WeightedDns.Proofs.Update.Matching

/-!
# Entries that get records

Entries without a record take one over from the listing or get a new one. `Grown` says what a zone
is after some of them have got theirs: each has its own record, which fits it, and all other
records are as they were. `Grown.ensure` is the step.
-/

namespace WeightedDns

open Lifecycle

namespace StoredRecord

/-- A record carries what an entry of a set says of it in the first place. -/
structure Carries (s : RecordSet) (e : Entry) (r : StoredRecord) : Prop where
  domain : r.domain = s.domain
  host : r.host = s.host
  type : r.type = s.type
  value : r.value = e.value
  ttl : r.ttl = e.ttl
  line : r.line = s.line

/-- The core of a record is the one that an entry of a set asks for. -/
structure Fits (s : RecordSet) (e : Entry) (r : StoredRecord) : Prop extends Carries s e r where
  priority : s.priority = none ∨ r.priority = s.priority

variable {s : RecordSet} {e : Entry} {r r' : StoredRecord}

theorem Carries.of_core_eq (h : Carries s e r) (hcore : r'.core = r.core) : Carries s e r' where
  domain := (congrArg (·.domain) hcore).trans h.domain
  host := (congrArg (·.host) hcore).trans h.host
  type := (congrArg (·.type) hcore).trans h.type
  value := (congrArg (·.value) hcore).trans h.value
  ttl := (congrArg (·.ttl) hcore).trans h.ttl
  line := (congrArg (·.line) hcore).trans h.line

theorem Fits.of_core_eq (h : Fits s e r) (hcore : r'.core = r.core) : Fits s e r' where
  toCarries := h.toCarries.of_core_eq hcore
  priority := by
    have hpriority : r'.priority = r.priority := congrArg (·.priority) hcore
    rw [hpriority]
    exact h.priority

theorem Fits.of_coreMatches (hdomain : r.domain = s.domain) (hhost : r.host = s.host)
    (h : coreMatches r s e = true) : Fits s e r := by
  obtain ⟨-, htype, hvalue, httl, hline, hpriority⟩ := coreMatches_iff.mp h
  exact ⟨⟨hdomain, hhost, htype, hvalue, httl, hline⟩, hpriority⟩

theorem Fits.coreMatches (h : Fits s e r) : coreMatches r s e = true := by
  rw [coreMatches_iff, h.host]
  exact ⟨Text.sameLetters_refl _, h.type, h.value, h.ttl, h.line, h.priority⟩

theorem Fits.rewritten (hdomain : r.domain = s.domain) : Fits s e (r.rewritten s e) :=
  ⟨⟨hdomain, rfl, rfl, rfl, rfl, rfl⟩, .inr rfl⟩

end StoredRecord

/-- A record with nothing but its ID and what a create finds it by. -/
def StoredRecord.label (r : StoredRecord) : StoredRecord :=
  { r.core with ttl := 0, line := "", priority := none, locked := false }

namespace Zone

/-- The labels of the records. -/
def labels (z : Zone) : List StoredRecord := z.records.map (·.label)

/-- Entries have got records in a zone that is as `z₀` besides. -/
structure Grown (z₀ : Zone) (s : RecordSet) (placed : List (Entry × String)) (z : Zone) :
    Prop where
  tidy : z.Tidy
  length : z.records.length ≤ z₀.records.length + placed.length
  nodup : (placed.map (·.2)).Nodup
  origin : ∀ q ∈ placed, ∀ r, z₀.record? q.2 = some r →
    r ∈ z₀.listing s ∧ r.value = q.1.value
  unlisted : ∀ q ∈ placed, z₀.record? q.2 = none → ∀ r ∈ z₀.listing s, r.value ≠ q.1.value
  first : ∀ q ∈ placed, ∀ r, (z₀.listing s).find? (fun r => r.value == q.1.value) = some r →
    q.2 = r.id
  labels : z₀.labels <+: z.labels
  added : z.added = z₀.added ++
    (placed.filter fun q => (z₀.record? q.2).isNone).map fun q => .of s q.1
  made : ∀ q ∈ placed, ∃ r, z.record? q.2 = some r ∧ r.Fits s q.1
  others : ∀ id, id ∉ placed.map (·.2) → z.record? id = z₀.record? id
  weighting : z.weighting = z₀.weighting
  failures : z.failures = z₀.failures

variable {z₀ z z' : Zone} {s : RecordSet} {placed : List (Entry × String)} {e : Entry}
  {inv : Call → Zone → Prop} {err : LifecycleError → Zone → Prop}

theorem labels_eq_cores (z : Zone) : z.labels = z.cores.map (·.label) := by
  rw [labels, cores, List.map_map]
  rfl

/-- A record that is rewritten for an entry of its value keeps its label. -/
theorem labels_rewritten (tidy : z.Tidy) {r : StoredRecord} (hr : z.record? r.id = some r)
    (hhost : r.host = s.host) (htype : r.type = s.type) (hvalue : r.value = e.value) :
    (z.edit r.id (.rewritten s e)).labels = z.labels := by
  simp only [labels, edit, List.map_map]
  refine List.map_congr_left ?_
  intro r' hr'
  show (if r'.id = r.id then r'.rewritten s e else r').label = r'.label
  split
  · rename_i heq
    have hsame := tidy.record?_of_mem hr'
    rw [heq, hr] at hsame
    obtain rfl := Option.some.inj hsame
    simp [StoredRecord.label, StoredRecord.core, StoredRecord.rewritten, hhost, htype, hvalue]
  · rfl

theorem labels_of_cores (h : z'.cores = z.cores) : z'.labels = z.labels := by
  rw [labels_eq_cores, labels_eq_cores, h]

namespace Grown

theorem refl (tidy : z₀.Tidy) (s : RecordSet) : Grown z₀ s [] z₀ where
  tidy := tidy
  length := Nat.le_refl _
  nodup := List.nodup_nil
  origin _ hq := nomatch hq
  unlisted _ hq := nomatch hq
  first _ hq := nomatch hq
  labels := List.prefix_refl _
  added := (List.append_nil _).symm
  made _ hq := nomatch hq
  others _ _ := rfl
  weighting := rfl
  failures := rfl

/-- Every record that was there is there. -/
theorem stays (h : Grown z₀ s placed z) {id : String} (hsome : (z₀.record? id).isSome) :
    (z.record? id).isSome := by
  by_cases hmem : id ∈ placed.map (·.2)
  · obtain ⟨q, hq, rfl⟩ := List.mem_map.mp hmem
    obtain ⟨r, hr, -⟩ := h.made q hq
    rw [hr]
    rfl
  · rw [h.others id hmem]
    exact hsome

/-- Weight, remark and status of a record that an entry has got do not matter. -/
theorem touched (h : Grown z₀ s placed z) {id : String} (hid : id ∈ placed.map (·.2))
    (ht : Touched id z z') : Grown z₀ s placed z' where
  tidy := ht.tidy
  length := by
    rw [length_of_cores ht.cores]
    exact h.length
  nodup := h.nodup
  origin := h.origin
  unlisted := h.unlisted
  first := h.first
  labels := by
    rw [labels_of_cores ht.cores]
    exact h.labels
  added := ht.added.trans h.added
  made q hq := by
    obtain ⟨r, hr, hfits⟩ := h.made q hq
    obtain ⟨r', hr', hcore⟩ := exists_record_of_cores ht.cores hr
    exact ⟨r', hr', hfits.of_core_eq hcore⟩
  others id' hid' := by
    have hne : id' ≠ id := by
      rintro rfl
      exact hid' hid
    rw [ht.others id' hne]
    exact h.others id' hid'
  weighting := ht.weighting.trans h.weighting
  failures := ht.failures.trans h.failures

/-- One more entry has got a record. -/
theorem snoc (h : Grown z₀ s placed z) {id : String} {r : StoredRecord}
    (hid : id ∉ placed.map (·.2)) (tidy : z'.Tidy)
    (hlength : z'.records.length ≤ z.records.length + 1)
    (horigin : ∀ r, z₀.record? id = some r → r ∈ z₀.listing s ∧ r.value = e.value)
    (hunlisted : z₀.record? id = none → ∀ r ∈ z₀.listing s, r.value ≠ e.value)
    (hfirst : ∀ r, (z₀.listing s).find? (fun r => r.value == e.value) = some r → id = r.id)
    (hlabels : z.labels <+: z'.labels)
    (hadded : z'.added = z.added ++ if (z₀.record? id).isNone then [.of s e] else [])
    (hr : z'.record? id = some r) (hfits : r.Fits s e)
    (hothers : ∀ id', id' ≠ id → z'.record? id' = z.record? id')
    (hweighting : z'.weighting = z.weighting) (hfailures : z'.failures = z.failures) :
    Grown z₀ s (placed ++ [(e, id)]) z' where
  tidy := tidy
  length := by
    have := h.length
    rw [List.length_append, List.length_singleton]
    omega
  nodup := by
    rw [List.map_append, List.nodup_append]
    refine ⟨h.nodup, by simp, ?_⟩
    intro a ha b hb heq
    have hb : b = id := by simpa using hb
    exact hid (hb ▸ heq ▸ ha)
  origin q hq := by
    rcases List.mem_append.mp hq with hq | hq
    · exact h.origin q hq
    · obtain rfl := List.mem_singleton.mp hq
      exact horigin
  unlisted q hq := by
    rcases List.mem_append.mp hq with hq | hq
    · exact h.unlisted q hq
    · obtain rfl := List.mem_singleton.mp hq
      exact hunlisted
  first q hq := by
    rcases List.mem_append.mp hq with hq | hq
    · exact h.first q hq
    · obtain rfl := List.mem_singleton.mp hq
      exact hfirst
  labels := h.labels.trans hlabels
  added := by
    rw [hadded, h.added, List.append_assoc, List.filter_append, List.map_append]
    cases hfresh : (z₀.record? id).isNone <;> simp [hfresh]
  made q hq := by
    rcases List.mem_append.mp hq with hq | hq
    · have hne : q.2 ≠ id := fun heq => hid (heq ▸ List.mem_map_of_mem hq)
      rw [hothers q.2 hne]
      exact h.made q hq
    · obtain rfl := List.mem_singleton.mp hq
      exact ⟨r, hr, hfits⟩
  others id' hid' := by
    rw [List.map_append, List.mem_append, not_or] at hid'
    have hne : id' ≠ id := by simpa using hid'.2
    rw [hothers id' hne]
    exact h.others id' hid'.1
  weighting := hweighting.trans h.weighting
  failures := hfailures.trans h.failures

/-- A listed record of a value that no entry has yet is still there as it was listed. -/
theorem record?_of_listed (h : Grown z₀ s placed z) (tidy₀ : z₀.Tidy)
    (hnew : ∀ q ∈ placed, q.1.value ≠ e.value) {r : StoredRecord} (hr : r ∈ z₀.listing s)
    (hvalue : r.value = e.value) :
    r.id ∉ placed.map (·.2) ∧ z₀.record? r.id = some r ∧ z.record? r.id = some r := by
  have hr₀ := tidy₀.record?_of_mem (mem_listing hr).1
  -- whoever had got it would have done so for its value, which is still to come
  have hid : r.id ∉ placed.map (·.2) := by
    intro hmem
    obtain ⟨q, hq, heq⟩ := List.mem_map.mp hmem
    obtain ⟨-, hsame⟩ := h.origin q hq r (by rw [heq]; exact hr₀)
    exact hnew q hq (hsame.symm.trans hvalue)
  exact ⟨hid, hr₀, by rw [h.others r.id hid]; exact hr₀⟩

/-- No entry has got the ID that is given out next. -/
theorem freshId_notMem (h : Grown z₀ s placed z) : z.freshId ∉ placed.map (·.2) := by
  intro hmem
  obtain ⟨q, hq, heq⟩ := List.mem_map.mp hmem
  obtain ⟨r, hr, -⟩ := h.made q hq
  rw [heq, h.tidy.record?_freshId] at hr
  cases hr

/-- The last entry that has got a record shares it with none before. -/
theorem ne_of_snoc {id : String} (h : Grown z₀ s (placed ++ [(e, id)]) z) {q : Entry × String}
    (hq : q ∈ placed) : q.2 ≠ id := by
  have hnodup := h.nodup
  rw [List.map_append, List.nodup_append] at hnodup
  exact hnodup.2.2 q.2 (List.mem_map_of_mem hq) id List.mem_cons_self

/-- The entry has got a record, which is the only one that has changed. -/
def Gets (z₀ z : Zone) (s : RecordSet) (placed : List (Entry × String)) (e : Entry)
    (found : String × Extras) (z' : Zone) : Prop :=
  Grown z₀ s (placed ++ [(e, found.1)]) z' ∧
    (∀ id, id ≠ found.1 → z'.record? id = z.record? id) ∧
    ∃ r, z'.record? found.1 = some r ∧ found.2.remark = r.remark.getD "" ∧
      found.2.status = r.status

section

variable (h : Grown z₀ s placed z) (hnew : ∀ q ∈ placed, q.1.value ≠ e.value)
  (sure : z₀.failures = [] ∨ ∀ e z', err e z')
  (hinv : ∀ c placed' z', (placed' = placed ∨ ∃ id, placed' = placed ++ [(e, id)]) →
    Grown z₀ s placed' z' → inv c z')
include h hnew sure hinv

/-- A listed record that does not match its entry is overwritten. -/
theorem overwrite (tidy₀ : z₀.Tidy) {r : StoredRecord} (hr : r ∈ z₀.listing s)
    (hvalue : r.value = e.value)
    (hfind : (z₀.listing s).find? (fun r => r.value == e.value) = some r) :
    (overwrite s e r.id).Ensures remote inv (fun _ => Gets z₀ z s placed e (r.id, .of r)) err
      z := by
  obtain ⟨-, hdomain, hhost, htype⟩ := mem_listing hr
  obtain ⟨hid, hr₀, hrz⟩ := h.record?_of_listed tidy₀ hnew hr hvalue
  refine ensures_overwrite h.tidy (by rw [h.failures]; exact sure)
    (fun c => hinv c placed z (.inl rfl) h) ?_ ?_
  · intro hnone
    rw [hrz] at hnone
    cases hnone
  · intro _ _ c hc
    have hrz' := record?_note_edit hrz (f := .rewritten s e) (fun _ => rfl) c
    have hothers : ∀ id', id' ≠ r.id →
        ((z.edit r.id (.rewritten s e)).note c).record? id' = z.record? id' := by
      intro id' hne
      have hedit := @record?_edit z r.id (.rewritten s e) (fun _ => rfl) id'
      rw [if_neg hne] at hedit
      exact hedit
    have hgrown : Grown z₀ s (placed ++ [(e, r.id)])
        ((z.edit r.id (.rewritten s e)).note c) := by
      refine h.snoc hid (h.tidy.rewritten s e r.id c) ?_ ?_ ?_ ?_ ?_ ?_ hrz' (.rewritten hdomain)
        hothers rfl rfl
      · simp [edit]
      · intro r' hr'
        obtain rfl := Option.some.inj (hr₀.symm.trans hr')
        exact ⟨hr, hvalue⟩
      · intro hnone
        rw [hr₀] at hnone
        cases hnone
      · intro r' hr'
        rw [Option.some.inj (hfind.symm.trans hr')]
      · have hsame : (z.edit r.id (.rewritten s e)).labels = z.labels :=
          labels_rewritten h.tidy hrz hhost htype hvalue
        exact hsame ▸ List.prefix_refl _
      · rw [hr₀, added_note, hc]
        rfl
    exact ⟨fun c' => hinv c' _ _ (.inr ⟨r.id, rfl⟩) hgrown, hgrown, hothers, _, hrz', rfl, rfl⟩

/-- An entry that no listed record has the value of gets a new one. -/
theorem add (hfind : (z₀.listing s).find? (fun r => r.value == e.value) = none)
    (htaken : (∃ r ∈ z₀.records, r.host = s.host ∧ r.type = s.type ∧ r.value = e.value ∧
      r ∉ z₀.listing s) → ∀ e z', err e z') :
    (add s e).Ensures remote inv (fun id => Gets z₀ z s placed e (id, .fresh)) err z := by
  refine ensures_add (by rw [h.failures]; exact sure) (fun c => hinv c placed z (.inl rfl) h) ?_ ?_
  · -- a record that is in the way has not come to an entry, so it has been there unlisted
    rintro ⟨r, hr, hhost, htype, hvalue⟩ e'
    have hrz := h.tidy.record?_of_mem hr
    have hid : r.id ∉ placed.map (·.2) := by
      intro hmem
      obtain ⟨q, hq, heq⟩ := List.mem_map.mp hmem
      obtain ⟨r', hr', hfits⟩ := h.made q hq
      rw [heq, hrz] at hr'
      obtain rfl := Option.some.inj hr'
      exact hnew q hq (hfits.value.symm.trans hvalue)
    rw [h.others r.id hid] at hrz
    refine htaken ⟨r, mem_of_record? hrz, hhost, htype, hvalue, ?_⟩ e' z
    intro hmem
    have hno := List.find?_eq_none.mp hfind r hmem
    simp [hvalue] at hno
  · intro _ r hr
    have hfresh := h.freshId_notMem
    have hrz : ((z.store r).note (.addRecord r)).record? z.freshId =
        some (stored z.freshId r) := by
      rw [note_record?, h.tidy.record?_store, if_pos rfl]
    have hothers : ∀ id', id' ≠ z.freshId →
        ((z.store r).note (.addRecord r)).record? id' = z.record? id' := by
      intro id' hne
      rw [note_record?, h.tidy.record?_store, if_neg hne]
    have hgrown : Grown z₀ s (placed ++ [(e, z.freshId)])
        ((z.store r).note (.addRecord r)) := by
      have hnew₀ : z₀.record? z.freshId = none := by
        rw [← h.others z.freshId hfresh, h.tidy.record?_freshId]
      refine h.snoc hfresh ((h.tidy.store r).note _) ?_ ?_ ?_ ?_ ?_ ?_ hrz ?_ hothers rfl rfl
      · simp [store_records]
      · intro r' hr'
        rw [hnew₀] at hr'
        cases hr'
      · intro _ r' hr' hvalue
        have hno := List.find?_eq_none.mp hfind r' hr'
        simp [hvalue] at hno
      · intro r' hr'
        rw [hfind] at hr'
        cases hr'
      · simp only [Zone.labels, note_records, store_records, List.map_append]
        exact List.prefix_append _ _
      · rw [hnew₀, added_note, hr]
        rfl
      · rw [hr]
        exact ⟨⟨rfl, rfl, rfl, rfl, rfl, rfl⟩, .inr rfl⟩
    exact ⟨fun c' => hinv c' _ _ (.inr ⟨z.freshId, rfl⟩) hgrown, hgrown, hothers, _, hrz, rfl,
      rfl⟩

/-- One more entry, of a value that none has had, gets its record. -/
theorem ensure (tidy₀ : z₀.Tidy)
    (htaken : (∃ r ∈ z₀.records, r.host = s.host ∧ r.type = s.type ∧ r.value = e.value ∧
      r ∉ z₀.listing s) → ∀ e z', err e z') :
    (ensure s (z₀.listing s) e).Ensures remote inv (Gets z₀ z s placed e) err z := by
  have hlisted : ∀ r, (z₀.listing s).find? (fun r => r.value == e.value) = some r →
      r ∈ z₀.listing s ∧ r.value = e.value := by
    intro r hr
    exact ⟨List.mem_of_find?_eq_some hr, by simpa using List.find?_some hr⟩
  refine ensures_ensure ?_ ?_ ?_
  · intro r hfind hmatches
    obtain ⟨hr, hvalue⟩ := hlisted r hfind
    obtain ⟨-, hdomain, hhost, -⟩ := mem_listing hr
    obtain ⟨hid, hr₀, hrz⟩ := h.record?_of_listed tidy₀ hnew hr hvalue
    refine ⟨h.snoc hid h.tidy (Nat.le_succ _) ?_ ?_ ?_ (List.prefix_refl _) ?_ hrz
      (.of_coreMatches hdomain hhost hmatches) (fun _ _ => rfl) rfl rfl, fun _ _ => rfl, r, hrz,
      rfl, rfl⟩
    · intro r' hr'
      obtain rfl := Option.some.inj (hr₀.symm.trans hr')
      exact ⟨hr, hvalue⟩
    · intro hnone
      rw [hr₀] at hnone
      cases hnone
    · intro r' hr'
      rw [Option.some.inj (hfind.symm.trans hr')]
    · rw [hr₀]
      exact (List.append_nil _).symm
  · intro r hfind _
    obtain ⟨hr, hvalue⟩ := hlisted r hfind
    exact h.overwrite hnew sure hinv tidy₀ hr hvalue hfind
  · intro hfind
    exact h.add hnew sure hinv hfind htaken

end

end Grown

end Zone

end WeightedDns
