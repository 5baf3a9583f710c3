import Mathlib.Order.Bounds.Basic
import WeightedDns.Proofs.Json.Saved
import WeightedDns.Proofs.Wire.Delivery
import WeightedDns.Proofs.Wire.Query
import WeightedDns.Proofs.Zone.Listing

/-!
# Pages of a listing

A walk over the records of a service that delivers a fixed list of them page by page ends before
the first page without any record of a supported type, and returns the supported ones up to there
(`allRecords_complete_iff`). It is complete exactly if no supported record stands behind such a
page.

`pagedService` is a service of this kind for any list of records (`pagedService_pages`): it reads
number and size of a page from the query.
-/

namespace WeightedDns.Wire

open Json

/-! ## Listings -/

/-- A value is a listing of records: it holds their total and the records of one page, and no
code. -/
def IsListing (total : Nat) (records : List RawRecord) (j : Json) : Prop :=
  ∃ members inner items, j = .object members ∧ (∀ m ∈ members, m.1 ≠ "Code") ∧
    Holds members [("DomainRecords", .object inner), ("TotalCount", .ofNat total)] ∧
    Holds inner [("Record", .array items)] ∧
    items.mapM RawRecord.ofJson? = some records

/-- A listing of records is delivered. -/
def Delivery.Lists (d : Delivery) (total : Nat) (records : List RawRecord) : Prop :=
  ∃ r body j, d = .replied r ∧ r.status < 400 ∧ r.body = .ok body ∧ parse? body = some j ∧
    IsListing total records j

/-- The records on a page of a list. -/
def recordsOn (raw : List RawRecord) (request : PageRequest) : List RawRecord :=
  (raw.drop ((request.page.toNat - 1) * request.size.toNat)).take request.size.toNat

/-- A transport to a service that delivers a list of records page by page: whenever it is asked for
a page with a number from one on and a size up to the greatest one, it delivers the records on that
page and the total of all. -/
def Transport.Pages {τ : Type} (transport : Transport τ) (client : Client) (domain : String)
    (query : RecordQuery) (raw : List RawRecord) : Prop :=
  ∀ (request : PageRequest) (t : τ), 1 ≤ request.page → 1 ≤ request.size →
    request.size ≤ maxPageSize →
    let sent := client.request (.listRecords domain query request) (transport.stamp t)
    (transport.send sent t).1.Lists raw.length (recordsOn raw request)

theorem IsListing.readListing? {total : Nat} {records : List RawRecord} {j : Json}
    (h : IsListing total records j) (htotal : total < UInt32.size) :
    readListing? "DomainRecords" "Record" RawRecord.ofJson? j =
      some (UInt32.ofNat total, records) := by
  obtain ⟨members, inner, items, rfl, -, hmembers, hinner, hitems⟩ := h
  obtain ⟨m, hm, hfinds⟩ := exists_members?_of_holds hmembers
  obtain ⟨n, hn, hrecords⟩ := exists_members?_of_holds hinner
  simp only [List.map_cons, List.map_nil, List.forall_mem_cons, Members.Finds]
    at hm hn hfinds hrecords
  have hlist : asOptional? (asList? RawRecord.ofJson?) (.array items) = some (some records) :=
    asOptional?_of_read hitems rfl
  have hpage : asOptional? (fun k => do
      (← k.members? ["Record"] false).optional "Record" (asList? RawRecord.ofJson?))
      (.object inner) = some (some (some records)) := by
    refine asOptional?_of_read ?_ rfl
    simp [hn, hrecords, hlist]
  have hcount : asOptional? asUInt32? (.ofNat total) = some (some (UInt32.ofNat total)) := by
    refine asOptional?_of_read ?_ rfl
    rw [asUInt32?, asNatBelow?_ofNat htotal]
    rfl
  rw [Wire.readListing?, hm]
  simp only [hfinds, Option.bind_eq_bind, Option.bind_some] at hpage ⊢
  rw [hpage, hcount]
  rfl

theorem IsListing.reportedError? {total : Nat} {records : List RawRecord} {j : Json}
    (h : IsListing total records j) : reportedError? (some j) = none := by
  obtain ⟨members, inner, items, rfl, hcode, -⟩ := h
  by_contra hreport
  obtain ⟨⟨code, message⟩, hreport⟩ := Option.ne_none_iff_exists'.mp hreport
  obtain ⟨members', hsame, -, hlookup⟩ := exists_reportedError?_iff.mp ⟨message, hreport⟩
  cases hsame
  obtain ⟨before, behind, hmembers, -⟩ := List.lookup_eq_some_iff.mp hlookup
  have hmem : ("Code", Json.text code) ∈ members := by
    rw [← List.mem_reverse, hmembers]
    exact List.mem_append_right _ List.mem_cons_self
  exact hcode _ hmem rfl

/-- A listing answers with the records of supported types, whatever else is in it. -/
theorem Delivery.Lists.answer {d : Delivery} {total : Nat} {records : List RawRecord}
    (h : d.Lists total records) (htotal : total < UInt32.size) (domain : String)
    (query : RecordQuery) (request : PageRequest) :
    d.answer (.listRecords domain query request) =
      .ok (.ofItems (records.filterMap (·.stored? domain)) (request.clamped maxPageSize)
        (UInt32.ofNat total)) := by
  obtain ⟨r, body, j, rfl, hstatus, hbody, hparse, hlisting⟩ := h
  refine (Delivery.answer_eq_ok_iff _ _ _).mpr
    ⟨r, rfl, hstatus, body, j, hbody, hparse, hlisting.reportedError?, ?_⟩
  rw [Call.readReply, hlisting.readListing? htotal]
  rfl

/-- A request within the bounds is sent as it is. -/
theorem clamped_eq_self {request : PageRequest} (hpage : 1 ≤ request.page)
    (hsize : 1 ≤ request.size) (hmax : request.size ≤ maxPageSize) :
    request.clamped maxPageSize = request := by
  have hleast : min request.size maxPageSize = request.size := if_pos hmax
  rw [PageRequest.clamped, Zone.max_eq_of_le hpage, Zone.max_eq_of_le hsize, hleast]

/-- What is answered at the first attempt is the answer. -/
theorem Client.attempts_of_ok {τ : Type} {client : Client} {transport : Transport τ} {c : Call}
    {t t' : τ} {value : c.Reply} (h : client.sendOnce transport c t = (.ok value, t'))
    (retries attempt : Nat) :
    client.attempts transport c retries attempt t = (.ok value, t') := by
  cases retries <;> rw [attempts, h]

/-! ## Walks -/

section

variable {τ : Type} {client : Client} {transport : Transport τ} {domain : String}
  {query : RecordQuery} {raw : List RawRecord}

/-- The records on the page of a walk that comes after `n` others. -/
def walked (raw : List RawRecord) (n : Nat) : List RawRecord := (raw.drop (n * 100)).take 100

theorem clamped_walkPage {n : Nat} (h : n < Remote.walkLimit) :
    (Zone.walkPage n).clamped maxPageSize = Zone.walkPage n := by
  have hsize : 1 ≤ Remote.walkPageSize ∧ Remote.walkPageSize ≤ maxPageSize := by decide
  exact clamped_eq_self (Zone.one_le_walkPage h) hsize.1 hsize.2

/-- The answer to a request for a page of a walk. -/
theorem Transport.Pages.answer (hpages : transport.Pages client domain query raw)
    (hlength : raw.length < UInt32.size) {n : Nat} (hn : n < Remote.walkLimit) (t : τ) :
    ∃ page t', (client.remote transport).answer (.listRecords domain query (Zone.walkPage n)) t =
        (.ok page, t') ∧
      page.items = (walked raw n).filterMap (·.stored? domain) ∧
      page.hasMore = decide ((n + 1) * 100 < raw.length) := by
  have hsize : 1 ≤ Remote.walkPageSize ∧ Remote.walkPageSize ≤ maxPageSize := by decide
  have hlists := hpages (Zone.walkPage n) t (Zone.one_le_walkPage hn) hsize.1 hsize.2
  have hanswer := hlists.answer hlength domain query (Zone.walkPage n)
  have hitems : recordsOn raw (Zone.walkPage n) = walked raw n := by
    rw [recordsOn, Zone.toNat_walkPage hn]
    rfl
  rw [clamped_walkPage hn, hitems] at hanswer
  refine ⟨_, _, Client.attempts_of_ok (Prod.ext hanswer rfl) _ _, rfl, ?_⟩
  rw [Page.ofItems, Zone.covered_walkPage hn, UInt32.toNat_ofNat_of_lt' hlength]

/-- No record on the page of a walk that comes after `n` others is of a supported type. -/
def Void (raw : List RawRecord) (domain : String) (n : Nat) : Prop :=
  ∀ r ∈ walked raw n, r.stored? domain = none

theorem void_iff {n : Nat} :
    Void raw domain n ↔ (walked raw n).filterMap (·.stored? domain) = [] :=
  List.filterMap_eq_nil_iff.symm

/-- Behind the last record all pages are void. -/
theorem void_of_length_le {n : Nat} (h : raw.length ≤ n * 100) : Void raw domain n := by
  rw [Void, walked, List.drop_eq_nil_of_le h]
  exact fun _ hr => nomatch hr

theorem walked_eq (n : Nat) : walked raw n = (raw.take ((n + 1) * 100)).drop (n * 100) := by
  rw [walked, List.drop_take, Nat.add_mul, Nat.add_sub_cancel_left]

theorem walked_append {n k : Nat} (h : n < k) :
    walked raw n ++ (raw.take (k * 100)).drop ((n + 1) * 100) =
      (raw.take (k * 100)).drop (n * 100) := by
  have hnext : (n + 1) * 100 = n * 100 + 100 := by omega
  have hpage : walked raw n = ((raw.take (k * 100)).drop (n * 100)).take 100 := by
    rw [walked, List.drop_take, List.take_take]
    congr 1
    omega
  rw [hpage, hnext, ← List.drop_drop, List.take_append_drop]

/-- One page of a walk: it is the last one if it is void or no record is behind it, and otherwise
the walk goes on with the next one. -/
theorem Transport.Pages.run_recordsFrom_succ (hpages : transport.Pages client domain query raw)
    (hlength : raw.length < UInt32.size) {n : Nat} (hn : n < Remote.walkLimit) (pages : Nat)
    (t : τ) :
    ∃ t₁, (Void raw domain n ∨ raw.length ≤ (n + 1) * 100 →
        (Remote.recordsFrom domain query (pages + 1) (Zone.walkPage n)).run
            (client.remote transport) t =
          (.ok ((walked raw n).filterMap (·.stored? domain)), t₁)) ∧
      (¬ Void raw domain n → (n + 1) * 100 < raw.length → ∀ rest t₂,
        (Remote.recordsFrom domain query pages (Zone.walkPage (n + 1))).run
            (client.remote transport) t₁ = (.ok rest, t₂) →
        (Remote.recordsFrom domain query (pages + 1) (Zone.walkPage n)).run
            (client.remote transport) t =
          (.ok ((walked raw n).filterMap (·.stored? domain) ++ rest), t₂)) := by
  obtain ⟨page, t₁, hanswer, hitems, hmore⟩ := hpages.answer hlength hn t
  have hrun : (Remote.recordsFrom domain query (pages + 1) (Zone.walkPage n)).run
      (client.remote transport) t =
        Dialogue.run (client.remote transport)
          (if !page.hasMore || page.items.isEmpty then pure page.items
            else do
              let rest ← Remote.recordsFrom domain query pages (Zone.walkPage n).next
              pure (page.items ++ rest)) t₁ := by
    rw [Remote.recordsFrom, Dialogue.run_bind, Dialogue.run_call, hanswer]
  have hstop : (!page.hasMore || page.items.isEmpty) = true ↔
      Void raw domain n ∨ raw.length ≤ (n + 1) * 100 := by
    rw [void_iff, ← hitems, hmore]
    simp [or_comm]
  rw [hrun]
  refine ⟨t₁, fun h => ?_, fun hvoid hbehind rest t₂ hrest => ?_⟩
  · rw [if_pos (hstop.mpr h), ← hitems]
    rfl
  · rw [if_neg (hstop.not.mpr (not_or.mpr ⟨hvoid, Nat.not_le_of_lt hbehind⟩)),
      Zone.walkPage_next, Dialogue.run_bind, hrest, ← hitems]
    rfl

/-- From any page on, a walk returns the supported records before the first void page, or on all
the pages that are left. -/
theorem Transport.Pages.exists_run_recordsFrom (hpages : transport.Pages client domain query raw)
    (hlength : raw.length < UInt32.size) {pages n : Nat} (hn : n + pages ≤ Remote.walkLimit)
    (t : τ) :
    ∃ k t', n ≤ k ∧ (∀ i, n ≤ i → i < k → ¬ Void raw domain i) ∧
      (k = n + pages ∨ Void raw domain k) ∧
      (Remote.recordsFrom domain query pages (Zone.walkPage n)).run (client.remote transport) t =
        (.ok (((raw.take (k * 100)).drop (n * 100)).filterMap (·.stored? domain)), t') := by
  -- by induction on the pages left, after `n` that have been read
  induction pages generalizing n t with
  | zero =>
    refine ⟨n, t, Nat.le_refl n, fun i hni hin => absurd hni (Nat.not_le_of_lt hin), .inl rfl, ?_⟩
    rw [List.drop_eq_nil_of_le (by rw [List.length_take]; omega)]
    rfl
  | succ pages ih =>
    have hlt : n < Remote.walkLimit := by omega
    obtain ⟨t₁, hends, hgoes⟩ := hpages.run_recordsFrom_succ hlength hlt pages t
    by_cases hvoid : Void raw domain n
    · refine ⟨n, t₁, Nat.le_refl n, fun i hni hin => absurd hni (Nat.not_le_of_lt hin),
        .inr hvoid, ?_⟩
      rw [hends (.inl hvoid), void_iff.mp hvoid,
        List.drop_eq_nil_of_le (by rw [List.length_take]; omega)]
      rfl
    · by_cases hlast : raw.length ≤ (n + 1) * 100
      · refine ⟨n + 1, t₁, Nat.le_succ n, fun i hni hin => ?_, .inr ?_, ?_⟩
        · obtain rfl : i = n := by omega
          exact hvoid
        · exact void_of_length_le hlast
        · rw [hends (.inr hlast), walked_eq]
      · obtain ⟨k, t₂, hk, hbefore, hat, hrest⟩ := ih (n := n + 1) (by omega) t₁
        refine ⟨k, t₂, by omega, fun i hni hik => ?_, ?_, ?_⟩
        · rcases Nat.eq_or_lt_of_le hni with rfl | hlater
          · exact hvoid
          · exact hbefore i hlater hik
        · rwa [Nat.add_right_comm, Nat.add_assoc] at hat
        · rw [hgoes hvoid (by omega) _ _ hrest, ← List.filterMap_append, walked_append hk]

/-- A walk over at most fifty thousand records returns the supported ones before the first void
page. -/
theorem Transport.Pages.exists_run_allRecords (hpages : transport.Pages client domain query raw)
    (hlength : raw.length ≤ 50000) (t : τ) :
    ∃ k t', IsLeast {n | Void raw domain n} k ∧
      (Remote.allRecords domain query).run (client.remote transport) t =
        (.ok ((raw.take (k * 100)).filterMap (·.stored? domain)), t') := by
  have hbits : raw.length < UInt32.size := Nat.lt_of_le_of_lt hlength (by decide)
  obtain ⟨k, t', -, hbefore, hat, hrun⟩ :=
    hpages.exists_run_recordsFrom hbits (Nat.le_of_eq (Nat.zero_add Remote.walkLimit)) t
  rw [Nat.zero_mul, List.drop_zero] at hrun
  refine ⟨k, t', ⟨?_, fun n hn => ?_⟩, hrun⟩
  · rcases hat with rfl | hvoid
    · exact void_of_length_le (by rw [Nat.zero_add]; exact hlength)
    · exact hvoid
  · by_contra hlt
    exact hbefore n (Nat.zero_le n) (Nat.lt_of_not_le hlt) hn

end

/-! ## A service with a list of records -/

/-- A record as the service writes it. -/
def RawRecord.toJson (r : RawRecord) : Json :=
  .object [("RecordId", .text r.id), ("DomainName", .ofOption .text r.domain),
    ("RR", .text r.host), ("Type", .text r.type), ("Value", .text r.value),
    ("TTL", .ofUInt32 r.ttl), ("Line", .ofOption .text r.line),
    ("Weight", .ofOption .ofUInt32 r.weight), ("Status", .ofOption .text r.status),
    ("Remark", .ofOption .text r.remark), ("Priority", .ofOption .ofUInt16 r.priority),
    ("Locked", .bool r.locked)]

theorem RawRecord.survives : Survives toJson ofJson? := by
  intro r a
  obtain ⟨m, hm, hfinds, -⟩ := r.exists_members? memberNames false (rfl : a.toJson = .object _)
    (by decide) (.refl _)
  simp only [List.forall_mem_cons, Members.Finds] at hfinds
  -- the values are put in before the binds are resolved, which would visit the rest at each
  rw [ofJson?, hm, Option.bind_eq_bind, Option.bind_some]
  simp only [hfinds, Reordering.apply_text, Reordering.apply_ofOption, Reordering.apply_ofUInt32,
    Reordering.apply_ofUInt16, Reordering.apply_bool, asText?_text, asOptional?_text,
    asUInt32?_ofUInt32, asOptional?_ofUInt32, asOptional?_ofUInt16, asBool?_bool]
  rfl

theorem RawRecord.plain_toJson (r : RawRecord) : Plain r.toJson := by
  refine .object ?_
  simp only [List.forall_mem_cons]
  exact ⟨.text _, plain_ofOption .text _, .text _, .text _, .text _, plain_ofUInt32 _,
    plain_ofOption .text _, plain_ofOption plain_ofUInt32 _, plain_ofOption .text _,
    plain_ofOption .text _, plain_ofOption plain_ofUInt16 _, .bool _, fun _ h => nomatch h⟩

/-- A page of a listing as the service writes it. -/
def listing (total : Nat) (records : List RawRecord) : Json :=
  .object [("TotalCount", .ofNat total),
    ("DomainRecords", .object [("Record", .ofList RawRecord.toJson records)])]

theorem isListing_listing (total : Nat) (records : List RawRecord) :
    IsListing total records (listing total records) := by
  refine ⟨_, [("Record", .ofList RawRecord.toJson records)], records.map RawRecord.toJson, rfl,
    ?_, ?_, ?_, asList?_ofList (RawRecord.survives .unchanged) records⟩
  · simp
  · simp [Holds]
  · simp [Holds, ofList]

theorem plain_listing {total : Nat} (htotal : total < UInt64.size) (records : List RawRecord) :
    Plain (listing total records) := by
  refine .object (List.forall_mem_cons.mpr ⟨plain_ofNat htotal, List.forall_mem_singleton.mpr ?_⟩)
  exact .object (List.forall_mem_singleton.mpr (plain_ofList RawRecord.plain_toJson records))

/-- A service that reads number and size of a page from the query, and delivers this page of a list
of records. -/
def pagedService (raw : List RawRecord) : Transport Unit where
  stamp _ := ⟨"", ""⟩
  send r _ :=
    let request : PageRequest := ⟨UInt32.ofNat (queryNumber "PageNumber" r.query),
      UInt32.ofNat (queryNumber "PageSize" r.query)⟩
    (.replied ⟨200, none, .ok (listing raw.length (recordsOn raw request)).pretty⟩, ())
  wait _ t := t

/-- Any list of records is delivered page by page. -/
theorem pagedService_pages (client : Client) (domain : String) (query : RecordQuery)
    (raw : List RawRecord) (hlength : raw.length < UInt64.size) :
    (pagedService raw).Pages client domain query raw := by
  intro request t hpage hsize hmax
  obtain ⟨hnumber, hcount⟩ :=
    queryNumber_listRecords domain query (clamped_eq_self hpage hsize hmax)
  have hrequest : (⟨UInt32.ofNat request.page.toNat, UInt32.ofNat request.size.toNat⟩ :
      PageRequest) = request := by
    rw [UInt32.ofNat_toNat, UInt32.ofNat_toNat]
  refine ⟨_, _, _, rfl, (by decide : (200 : Nat) < 400), rfl, ?_, isListing_listing _ _⟩
  rw [Client.request, hnumber, hcount, hrequest]
  exact parse?_pretty (plain_listing hlength _)

/-! ## Completeness -/

/-- A walk over at most fifty thousand records, delivered page by page by a service, returns in
their order the records of supported types that stand before the first page without any. These are
all of them exactly if behind no page without any there is another one. -/
theorem allRecords_complete_iff {τ : Type} {client : Client} {transport : Transport τ}
    {domain : String} {query : RecordQuery} {raw : List RawRecord}
    (hpages : transport.Pages client domain query raw) (hlength : raw.length ≤ 50000) (t : τ) :
    ∃ k records t', IsLeast {n | Void raw domain n} k ∧
      (Remote.allRecords domain query).run (client.remote transport) t = (.ok records, t') ∧
      records = (raw.take (k * 100)).filterMap (·.stored? domain) ∧
      (records = raw.filterMap (·.stored? domain) ↔
        ∀ n, Void raw domain n → ∀ r ∈ raw.drop (n * 100), r.stored? domain = none) := by
  obtain ⟨k, t', hleast, hrun⟩ := hpages.exists_run_allRecords hlength t
  refine ⟨k, _, t', hleast, hrun, rfl, ?_⟩
  have hsplit : raw.filterMap (·.stored? domain) =
      (raw.take (k * 100)).filterMap (·.stored? domain) ++
        (raw.drop (k * 100)).filterMap (·.stored? domain) := by
    rw [← List.filterMap_append, List.take_append_drop]
  rw [hsplit, List.self_eq_append_right, List.filterMap_eq_nil_iff]
  constructor
  · intro hbehind n hvoid r hr
    have hkn : k * 100 ≤ n * 100 := Nat.mul_le_mul_right 100 (hleast.2 hvoid)
    exact hbehind r ((List.drop_sublist_drop_left raw hkn).subset hr)
  · intro hall
    exact hall k hleast.1

/-- A record of example.com as the service has it. -/
def plainRecord (id type value : String) : RawRecord where
  id := id
  domain := none
  host := "www"
  type := type
  value := value
  ttl := 600
  line := none
  weight := none
  status := none
  remark := none
  priority := none
  locked := false

/-- Two records of supported types with another one between them. -/
def forwardBetween : List RawRecord :=
  [plainRecord "1" "A" "192.0.2.1", plainRecord "2" "FORWARD_URL" "http://example.com",
    plainRecord "3" "AAAA" "2001:db8::1"]

theorem forwardBetween_complete :
    ((pagedService forwardBetween).Pages keyClient "example.com" ⟨none, none, none⟩ forwardBetween ∧
      forwardBetween.length ≤ 50000) ∧
    ∃ t', (Remote.allRecords "example.com" ⟨none, none, none⟩).run
        (keyClient.remote (pagedService forwardBetween)) () =
      (.ok (forwardBetween.filterMap (·.stored? "example.com")), t') := by
  have hlength : forwardBetween.length ≤ 50000 := by decide
  have hpages := pagedService_pages keyClient "example.com" ⟨none, none, none⟩
    forwardBetween (by decide)
  refine ⟨⟨hpages, hlength⟩, ?_⟩
  obtain ⟨k, records, t', -, hrun, -, hiff⟩ := allRecords_complete_iff hpages hlength ()
  refine ⟨t', hrun.trans ?_⟩
  rw [hiff.mpr]
  intro n hvoid
  cases n with
  | zero => exact absurd (hvoid _ List.mem_cons_self) (by decide)
  | succ n =>
    rw [List.drop_eq_nil_of_le (by change 3 ≤ (n + 1) * 100; omega)]
    exact fun _ hr => nomatch hr

/-- A record of a supported type behind a page of others. -/
def forwardsBefore : List RawRecord :=
  List.replicate 100 (plainRecord "2" "FORWARD_URL" "http://example.com") ++
    [plainRecord "1" "A" "192.0.2.1"]

/-- A walk does not always return all records of supported types: the one behind a page of others
is lost. -/
theorem not_allRecords_complete :
    ¬ ∀ (τ : Type) (client : Client) (transport : Transport τ) (domain : String)
      (query : RecordQuery) (raw : List RawRecord) (t : τ),
      transport.Pages client domain query raw → raw.length ≤ 50000 →
      ∃ t', (Remote.allRecords domain query).run (client.remote transport) t =
        (.ok (raw.filterMap (·.stored? domain)), t') := by
  intro h
  have hlength : forwardsBefore.length = 101 := by
    rw [forwardsBefore, List.length_append, List.length_replicate]
    rfl
  have hpages := pagedService_pages keyClient "example.com" ⟨none, none, none⟩
    forwardsBefore (by rw [hlength]; decide)
  obtain ⟨t₁, hall⟩ := h Unit keyClient (pagedService forwardsBefore) "example.com"
    ⟨none, none, none⟩ forwardsBefore () hpages (by omega)
  obtain ⟨k, t₂, hleast, hrun⟩ := hpages.exists_run_allRecords (by omega) ()
  have hvoid : Void forwardsBefore "example.com" 0 := by
    intro r hr
    rw [walked, Nat.zero_mul, List.drop_zero, forwardsBefore,
      List.take_left' List.length_replicate] at hr
    rw [List.eq_of_mem_replicate hr]
    rfl
  obtain rfl : k = 0 := Nat.le_zero.mp (hleast.2 hvoid)
  rw [hall, Nat.zero_mul, List.take_zero, Prod.mk.injEq, Except.ok.injEq] at hrun
  have hnone : forwardsBefore.filterMap (·.stored? "example.com") = [] := hrun.1
  have hmem : plainRecord "1" "A" "192.0.2.1" ∈ forwardsBefore :=
    List.mem_append_right _ List.mem_cons_self
  exact absurd (List.filterMap_eq_nil_iff.mp hnone _ hmem) (by decide)

end WeightedDns.Wire
