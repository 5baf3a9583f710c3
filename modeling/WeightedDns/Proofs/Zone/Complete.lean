import WeightedDns.Proofs.Zone.Listing

/-!
# Complete listings

`Asked` says what a query asks of a record. A zone in memory whose listing has not been made to
fail lists all the records that are asked for, each once and in their order, as far as the pages of
a walk reach, and a page says that another one follows exactly if the pages up to it do not cover
the records there are (`listing_exact`).
-/

namespace WeightedDns

namespace Page

variable {α : Type}

/-- What a page says about its successor does not depend on how far 32 bits can count: a product
that is cut off there is not below any total. -/
theorem covered_lt_iff (page size total : UInt32) :
    covered page size < total.toNat ↔ page.toNat * size.toNat < total.toNat := by
  have hbound : total.toNat ≤ UInt32.size - 1 := Nat.le_sub_one_of_lt total.toNat_lt
  rw [covered]
  omega

theorem hasMore_ofItems_iff (items : List α) (request : PageRequest) (total : UInt32) :
    (ofItems items request total).hasMore = true ↔
      request.page.toNat * request.size.toNat < total.toNat := by
  rw [← covered_lt_iff]
  exact decide_eq_true_iff

end Page

namespace Zone

variable {z : Zone} {domain : String} {query : RecordQuery} {r : StoredRecord}

/-- What a query of a domain asks of a record: its domain and, where they are given, a part of its
host, its type and a part of its value. -/
structure Asked (domain : String) (query : RecordQuery) (r : StoredRecord) : Prop where
  domain_eq : r.domain = domain
  host_holds : ∀ part, query.hostKeyword = some part → part.toList <:+: r.host.toList
  type_eq : ∀ type, query.type = some type → r.type = type
  value_holds : ∀ part, query.valueKeyword = some part → part.toList <:+: r.value.toList

theorem asked_iff : Asked domain query r ↔ selects domain query r = true := by
  simp only [selects, Bool.and_eq_true, beq_iff_eq, Option.all_eq_true, Text.holds_iff]
  constructor
  · intro h
    exact ⟨⟨⟨h.domain_eq, h.host_holds⟩, h.type_eq⟩, h.value_holds⟩
  · rintro ⟨⟨⟨hdomain, hhost⟩, htype⟩, hvalue⟩
    exact ⟨hdomain, hhost, htype, hvalue⟩

instance : DecidablePred (Asked domain query) := fun _ => decidable_of_iff _ asked_iff.symm

/-- The records of a zone that a query asks for. -/
def asked (z : Zone) (domain : String) (query : RecordQuery) : List StoredRecord :=
  z.records.filter fun r => Asked domain query r

theorem matching_eq_asked : z.matching domain query = z.asked domain query :=
  List.filter_congr fun _ _ => Bool.eq_iff_iff.mpr (asked_iff.symm.trans decide_eq_true_iff.symm)

/-! ## Walks -/

theorem run_allRecords (hallows : z.failures.lookup .listRecords = none) :
    (Remote.allRecords domain query).run remote z =
      (.ok ((z.asked domain query).take walkReach), z) := by
  have h : (Remote.allRecords domain query).Ensures remote (fun _ _ => True)
      (fun found z' => found = (z.asked domain query).take walkReach ∧ z' = z)
      (fun _ _ => False) z := by
    refine ensures_allRecords (fun _ _ => trivial) (fun e hfails => ?_) fun _ => ?_
    · rw [hallows] at hfails
      cases hfails
    · rw [matching_eq_asked]
      exact ⟨rfl, rfl⟩
  obtain ⟨found, z', hrun, rfl, rfl⟩ := h.exists_run
  exact hrun

theorem run_allRecords_of_fails {e : ServiceError}
    (hfails : z.failures.lookup .listRecords = some e) :
    (Remote.allRecords domain query).run remote z = (.error e, z) := by
  have hanswer : remote.answer (.listRecords domain query Remote.firstPage) z = (.error e, z) :=
    answer_of_fails hfails
  rw [Remote.allRecords, Remote.walkLimit, Remote.recordsFrom, Dialogue.run_bind,
    Dialogue.run_call, hanswer]

/-! ## Pages -/

/-- A page of records is about those that are asked for, whatever page is requested. -/
theorem page_of_answer {request : PageRequest} {page : Page StoredRecord}
    (h : (z.answer (.listRecords domain query request)).1 = .ok page) :
    page = pageOf (z.asked domain query) request := by
  cases hfails : z.failures.lookup (Call.listRecords domain query request).kind with
  | some e =>
    rw [answer_of_fails hfails] at h
    cases h
  | none =>
    rw [answer_of_allows hfails] at h
    rw [← matching_eq_asked]
    cases h
    rfl

/-- A zone lists exactly the records that are asked for, each once and in their order, or the first
fifty thousand of them, unless listing has been made to fail. A page says that another one follows
exactly if the product of its number and size is below the total. -/
theorem listing_exact (z : Zone) (domain : String) (query : RecordQuery) :
    (z.failures.lookup .listRecords = none →
      ((z.asked domain query).length ≤ 50000 →
        (Remote.allRecords domain query).run remote z = (.ok (z.asked domain query), z)) ∧
      (50000 < (z.asked domain query).length →
        (Remote.allRecords domain query).run remote z =
          (.ok ((z.asked domain query).take 50000), z))) ∧
    (∀ e, z.failures.lookup .listRecords = some e →
      (Remote.allRecords domain query).run remote z = (.error e, z)) ∧
    (∀ request page, (z.answer (.listRecords domain query request)).1 = .ok page →
      page.total.toNat = min (z.asked domain query).length (UInt32.size - 1) ∧
      (page.hasMore = true ↔ page.page.toNat * page.size.toNat < page.total.toNat)) ∧
    ∀ (α : Type) (items : List α) (page size total : UInt32),
      (Page.ofItems items ⟨page, size⟩ total).hasMore = true ↔
        page.toNat * size.toNat < total.toNat := by
  refine ⟨fun hallows => ⟨fun hlength => ?_, fun _ => run_allRecords hallows⟩,
    fun e => run_allRecords_of_fails, fun request page h => ?_,
    fun α items page size => Page.hasMore_ofItems_iff items ⟨page, size⟩⟩
  · have hall : (z.asked domain query).take walkReach = z.asked domain query :=
      List.take_of_length_le hlength
    rw [run_allRecords hallows, hall]
  · obtain rfl := page_of_answer h
    exact ⟨toNat_count32 _, Page.hasMore_ofItems_iff _ request _⟩

/-- The address of a host with a number. -/
def numbered (n : Nat) : StoredRecord where
  id := toString n
  domain := "example.com"
  host := s!"www{n}"
  type := .a
  value := "192.0.2.1"
  ttl := 600
  line := RecordSet.defaultLine
  weight := some 1
  status := .enabled
  remark := none
  priority := none
  locked := false

/-- A zone with so many hosts that they fill two pages. -/
def twoPages : Zone := { empty with records := (List.range 200).map numbered }

/-- The hosts of both pages are listed, in their order. -/
theorem twoPages_listed :
    (twoPages.failures.lookup .listRecords = none ∧
      (twoPages.asked "example.com" ⟨none, some .a, none⟩).length ≤ 50000) ∧
    (Remote.allRecords "example.com" ⟨none, some .a, none⟩).run remote twoPages =
      (.ok ((List.range 200).map numbered), twoPages) := by
  have hallows : twoPages.failures.lookup .listRecords = none := rfl
  have hasked : twoPages.asked "example.com" ⟨none, some .a, none⟩ =
      (List.range 200).map numbered := by
    refine List.filter_eq_self.mpr fun r hr => decide_eq_true ?_
    obtain ⟨n, -, rfl⟩ := List.mem_map.mp hr
    exact ⟨rfl, (fun _ h => nomatch h), fun _ h => Option.some.inj h, (fun _ h => nomatch h)⟩
  have hlength : (twoPages.asked "example.com" ⟨none, some .a, none⟩).length ≤ 50000 := by
    rw [hasked, List.length_map, List.length_range]
    decide
  refine ⟨⟨hallows, hlength⟩, ?_⟩
  have hrun := ((listing_exact twoPages "example.com" ⟨none, some .a, none⟩).1 hallows).1 hlength
  rw [hrun, hasked]

/-- A zone with one record after its listing has been made to fail. -/
def unlisted : Zone :=
  (empty.seed "www" .a "192.0.2.1" 600).fail .listRecords ⟨provider, .quotaExceeded none⟩

/-- A zone does not always list its records: listing may have been made to fail. -/
theorem not_always_listed :
    ¬ ∀ (z : Zone) (domain : String) (query : RecordQuery),
      (z.asked domain query).length ≤ 50000 →
      ((Remote.allRecords domain query).run remote z).1 = .ok (z.asked domain query) := by
  intro h
  have hfails : unlisted.failures.lookup .listRecords =
      some ⟨provider, .quotaExceeded none⟩ := rfl
  have hlisted := h unlisted "example.com" ⟨none, none, none⟩ (by decide)
  rw [run_allRecords_of_fails hfails] at hlisted
  cases hlisted

end Zone

end WeightedDns
