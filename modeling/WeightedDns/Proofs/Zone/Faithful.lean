import Mathlib.Data.List.Forall2
import WeightedDns.Proofs.Zone.Reading

/-!
# What is read is what is stored

A fetch does not report weights, and what reading puts in their place comes from another listing.
As far as that listing reaches, and where the records of a set are of one zone, host and type, the
set that is read says of each record what is stored of it, weight included (`read_reports`).
-/

namespace WeightedDns

open Lifecycle

/-- The entry says of a record what is stored: a weight that is not there is zero, and an empty
remark is none. -/
structure Entry.Reports (e : Entry) (r : StoredRecord) : Prop where
  value : e.value = r.value
  ttl : e.ttl = r.ttl
  weight : e.weight = r.weight.getD 0
  status : e.status = r.status
  remark : e.remark = if r.remark = some "" then none else r.remark

theorem entryOf_reports (r : StoredRecord) : (entryOf r).Reports r := by
  refine ⟨rfl, rfl, rfl, rfl, ?_⟩
  unfold entryOf
  cases r.remark with
  | none => rfl
  | some remark => by_cases h : remark = "" <;> simp [Option.filter, h]

namespace Zone

variable {z : Zone} {domain : String} {ids : List String} {first r : StoredRecord}
  {rest : List StoredRecord}

/-- The records that are there under some IDs are all of one zone, and of one host and type. -/
structure Alike (z : Zone) (domain : String) (ids : List String) : Prop where
  zone : ∀ r ∈ z.fetched ids, r.domain = domain
  shared : ∀ r ∈ z.fetched ids, ∀ s ∈ z.fetched ids, r.host = s.host ∧ r.type = s.type

/-- The tracked set says of the records under some IDs what is stored. -/
structure Reports (z : Zone) (domain : String) (ids : List String) (t : TrackedSet) : Prop where
  /-- The IDs that have a record, in the order in which they are asked for. -/
  there : t.id.ids = ids.filter fun i => (z.record? i).isSome
  entries : List.Forall₂ (fun i e => ∃ r, z.record? i = some r ∧ e.Reports r) t.id.ids
    t.config.entries
  zone : t.config.domain = domain
  /-- What the records share is that of the first of them. -/
  shared : ∃ r, ids.findSome? z.record? = some r ∧
    t.config.host = r.host ∧ t.config.type = r.type ∧ t.config.line = r.line ∧
    t.config.priority = r.priority ∧
    (t.config.weighting = .enabled ↔ z.isOpen (fullName r.host domain) = true)

theorem fetched_eq_nil_iff : z.fetched ids = [] ↔ ∀ i ∈ ids, z.record? i = none :=
  List.filterMap_eq_nil_iff

/-- The entry that is read from a record within reach says what is stored of it. -/
theorem Tidy.entryRead_reports (tidy : z.Tidy) (hcount : z.records.length ≤ walkReach)
    (hr : r ∈ z.records) (hdomain : r.domain = domain) (hhost : r.host = first.host)
    (htype : r.type = first.type) : (z.entryRead domain first r).Reports r := by
  rw [entryRead, tidy.fillWeight_unweighted hr hdomain hhost htype hcount]
  exact entryOf_reports r

/-- What is put together from the records that are there says what is stored of them. -/
theorem Tidy.reading_reports (tidy : z.Tidy) (hcount : z.records.length ≤ walkReach)
    (alike : z.Alike domain ids) (hfetched : z.fetched ids = first :: rest) :
    z.Reports domain ids (z.reading domain first (first :: rest)) := by
  rw [← hfetched]
  refine ⟨map_id_fetched_eq_filter z ids, ?_, rfl, first, ?_, rfl, rfl, rfl, rfl, ?_⟩
  · unfold reading
    dsimp only
    rw [List.forall₂_map_left_iff, List.forall₂_map_right_iff, List.forall₂_same]
    intro r hr
    have hmem := (mem_fetched hr).1
    obtain ⟨hhost, htype⟩ := alike.shared r hr first (hfetched ▸ List.mem_cons_self)
    exact ⟨r, tidy.record?_of_mem hmem,
      tidy.entryRead_reports hcount hmem (alike.zone r hr) hhost htype⟩
  · rw [← List.head?_filterMap]
    exact congrArg List.head? hfetched
  · change Switch.ofBool _ = .enabled ↔ _
    cases z.isOpen (fullName first.host domain) <;> decide

/-- Reading says what is stored: nothing exactly if none of the records is there, and otherwise of
each that is there its value, time to live, weight, status and remark, in the order of the IDs. The
zone is as before. -/
theorem read_reports (h : z.Reachable) (calm : z.failures = []) (hcount : z.records.length ≤ 50000)
    (id : ResourceId) (alike : z.Alike domain id.ids) :
    ∃ found, (read? id domain).run remote z = (.ok found, z) ∧
      (found = none ↔ ∀ i ∈ id.ids, z.record? i = none) ∧
      ∀ t, found = some t → z.Reports domain id.ids t := by
  have hread : (read? id domain).Ensures remote (fun _ _ => True)
      (fun found z' => z' = z ∧ (found = none ↔ ∀ i ∈ id.ids, z.record? i = none) ∧
        ∀ t, found = some t → z.Reports domain id.ids t) (fun _ _ => False) z := by
    refine ensures_read? h.tidy (.inl calm) (fun _ _ => trivial) ?_ ?_
    · rintro (hgone | hhidden)
      · exact ⟨rfl, iff_of_true rfl (fetched_eq_nil_iff.mp hgone), fun t ht => nomatch ht⟩
      · exact absurd (lookup_failures_eq_none calm _) hhidden
    · intro first rest hfetched _
      refine ⟨rfl, iff_of_false (fun h => nomatch h) ?_, ?_⟩
      · rw [← fetched_eq_nil_iff, hfetched]
        exact List.cons_ne_nil first rest
      · rintro t ⟨⟩
        exact h.tidy.reading_reports hcount alike hfetched
  obtain ⟨found, z', hrun, rfl, hfound⟩ := hread.exists_run
  exact ⟨found, hrun, hfound⟩

/-- Two records of one host with weighting on, the second of them with another weight. -/
def leaning : Zone :=
  ((((empty.seed "www" .a "192.0.2.1" 600).seed "www" .a "192.0.2.2" 300).answer
    (.setWeighting ⟨"example.com", "www", none, none, true⟩)).2.answer (.setWeight "1001" 7)).2

theorem leaning_reachable : leaning.Reachable :=
  .answer _ (.answer _ (.seed _ _ _ _ (.seed _ _ _ _ .empty)))

theorem leaning_reports :
    ∃ t, (read? ⟨["1001", "1002", "1000"]⟩ "example.com").run remote leaning =
        (.ok (some t), leaning) ∧
      leaning.Reports "example.com" ["1001", "1002", "1000"] t := by
  have alike : leaning.Alike "example.com" ["1001", "1002", "1000"] := ⟨by decide, by decide⟩
  obtain ⟨found, hrun, hnone, hsome⟩ :=
    read_reports leaning_reachable rfl (by decide) ⟨["1001", "1002", "1000"]⟩ alike
  cases found with
  | none => exact absurd (hnone.mp rfl "1001" List.mem_cons_self) (by decide)
  | some t => exact ⟨t, hrun, hsome t rfl⟩

end Zone

end WeightedDns
