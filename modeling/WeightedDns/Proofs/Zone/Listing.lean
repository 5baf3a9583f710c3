import WeightedDns.Proofs.Dialogue.Course
import WeightedDns.Remote.Walk
import WeightedDns.Zone

/-!
# Walking the listings of a zone

A walk over the records of a zone in memory returns the records that the query selects, in their
order, as far as the pages of a walk reach (`ensures_allRecords`). A walk over its weighted hosts
returns the switch of the one host that is asked for (`ensures_weightedHost?`).
-/

namespace WeightedDns

namespace Zone

variable {z : Zone}

theorem answer_of_fails {c : Call} {e : ServiceError} (h : z.failures.lookup c.kind = some e) :
    z.answer c = (.error e, z) := by
  unfold answer
  rw [h]

theorem answer_of_allows {c : Call} (h : z.failures.lookup c.kind = none) :
    z.answer c = z.perform c := by
  unfold answer
  rw [h]

variable {inv : Call → Zone → Prop}

/-- A call ends as it has been made to fail, or as the zone performs it. -/
theorem ensures_call {c : Call} {post : c.Reply → Zone → Prop}
    {err : ServiceError → Zone → Prop} (hinv : inv c z)
    (herr : ∀ e, z.failures.lookup c.kind = some e → err e z)
    (hperform : z.failures.lookup c.kind = none →
      inv c (z.perform c).2 ∧ Dialogue.Ended post err (z.perform c)) :
    (Dialogue.call c).Ensures remote inv post err z := by
  cases hfail : z.failures.lookup c.kind with
  | some e =>
    have hanswer : remote.answer c z = (.error e, z) := answer_of_fails hfail
    simp only [Dialogue.call, Dialogue.Ensures, hanswer]
    exact ⟨hinv, herr e hfail⟩
  | none =>
    have hanswer : remote.answer c z = z.perform c := answer_of_allows hfail
    obtain ⟨hkept, hended⟩ := hperform hfail
    simp only [Dialogue.call, Dialogue.Ensures, hanswer]
    refine ⟨hkept, ?_⟩
    rcases hp : z.perform c with ⟨_ | a, z'⟩ <;> rw [hp] at hended <;> exact hended

/-! ## Pages -/

theorem max_eq_of_le {a b : UInt32} (h : b ≤ a) : max a b = a := by
  change (if a ≤ b then b else a) = a
  split
  · rename_i hle
    exact UInt32.le_antisymm h hle
  · rfl

/-- The request for the page of a walk that comes after `n` others. -/
def walkPage (n : Nat) : PageRequest := ⟨UInt32.ofNat (n + 1), Remote.walkPageSize⟩

theorem walkPage_next (n : Nat) : (walkPage n).next = walkPage (n + 1) := by
  unfold walkPage PageRequest.next
  congr 1
  exact (UInt32.ofNat_add (n + 1) 1).symm

theorem toNat_count32 (n : Nat) : (count32 n).toNat = min n (UInt32.size - 1) := by
  unfold count32
  rw [UInt32.toNat_ofNat']
  exact Nat.mod_eq_of_lt (by have : UInt32.size = 2 ^ 32 := rfl; omega)

theorem toNat_walkPage {n : Nat} (h : n < Remote.walkLimit) :
    (walkPage n).page.toNat = n + 1 := by
  have hlimit : Remote.walkLimit = 500 := rfl
  exact UInt32.toNat_ofNat_of_lt' (by have : UInt32.size = 2 ^ 32 := rfl; omega)

/-- Pages are counted from one, and the first page of a walk is that one. -/
theorem one_le_walkPage {n : Nat} (h : n < Remote.walkLimit) : 1 ≤ (walkPage n).page := by
  rw [UInt32.le_iff_toNat_le, toNat_walkPage h]
  exact Nat.succ_pos n

theorem covered_walkPage {n : Nat} (h : n < Remote.walkLimit) :
    Page.covered (walkPage n).page (walkPage n).size = (n + 1) * 100 := by
  have hlimit : Remote.walkLimit = 500 := rfl
  have hsize : (walkPage n).size.toNat = 100 := rfl
  have hbits : UInt32.size = 2 ^ 32 := rfl
  rw [Page.covered, toNat_walkPage h, hsize]
  omega

theorem pageOf_items {α : Type} (items : List α) {n : Nat} (h : n < Remote.walkLimit) :
    (pageOf items (walkPage n)).items = (items.drop (n * 100)).take 100 := by
  have hlimit : Remote.walkLimit = 500 := rfl
  have hsub : ((walkPage n).page - 1).toNat = n := by
    rw [UInt32.toNat_sub_of_le _ _ (one_le_walkPage h), toNat_walkPage h]
    simp
  have hstart : (((walkPage n).page - 1) * (walkPage n).size).toNat = n * 100 := by
    rw [UInt32.toNat_mul, hsub]
    have : (walkPage n).size.toNat = 100 := rfl
    rw [this]
    omega
  simp only [pageOf, Page.ofItems, max_eq_of_le (one_le_walkPage h), hstart]
  rfl

theorem pageOf_hasMore {α : Type} (items : List α) {n : Nat} (h : n < Remote.walkLimit) :
    (pageOf items (walkPage n)).hasMore = decide ((n + 1) * 100 < items.length) := by
  have hlimit : Remote.walkLimit = 500 := rfl
  have hsize : UInt32.size = 2 ^ 32 := rfl
  simp only [pageOf, Page.ofItems, covered_walkPage h, toNat_count32]
  congr 1
  apply propext
  omega

/-! ## Records -/

/-- The records that a query selects. -/
def matching (z : Zone) (domain : String) (query : RecordQuery) : List StoredRecord :=
  z.records.filter (selects domain query)

/-- How many records a walk returns at most. -/
def walkReach : Nat := Remote.walkLimit * 100

variable {err : ServiceError → Zone → Prop}

theorem ensures_recordsFrom {domain : String} {query : RecordQuery}
    {post : List StoredRecord → Zone → Prop} {pages n : Nat}
    (hn : n + pages ≤ Remote.walkLimit) (hinv : ∀ c, c.writes = false → inv c z)
    (herr : ∀ e, z.failures.lookup .listRecords = some e → err e z)
    (hpost : z.failures.lookup .listRecords = none →
      post (((z.matching domain query).drop (n * 100)).take (pages * 100)) z)
    (hzero : pages = 0 → z.failures.lookup .listRecords = none) :
    (Remote.recordsFrom domain query pages (walkPage n)).Ensures remote inv post err z := by
  -- by induction on the pages left, after `n` that have been read
  induction pages generalizing n post with
  | zero =>
    rw [Remote.recordsFrom, Dialogue.pure_eq, Dialogue.ensures_done]
    simpa using hpost (hzero rfl)
  | succ pages ih =>
    rw [Remote.recordsFrom, Dialogue.ensures_bind]
    refine ensures_call (hinv _ rfl) herr ?_
    intro hallows
    refine ⟨hinv _ rfl, ?_⟩
    have hlt : n < Remote.walkLimit := by omega
    have hitems := pageOf_items (z.matching domain query) hlt
    have hmore := pageOf_hasMore (z.matching domain query) hlt
    have htake : (pages + 1) * 100 = 100 + pages * 100 := by omega
    have hdrop : n * 100 + 100 = (n + 1) * 100 := by omega
    replace hpost := hpost hallows
    rw [htake, List.take_add, List.drop_drop, hdrop] at hpost
    simp only [perform, Dialogue.Ended]
    change Dialogue.Ensures remote inv post err
      (if !(pageOf (z.matching domain query) (walkPage n)).hasMore ||
        (pageOf (z.matching domain query) (walkPage n)).items.isEmpty then _ else _) z
    split
    · -- the walk stops, and nothing is left behind this page
      rename_i hstop
      have hrest : (z.matching domain query).drop ((n + 1) * 100) = [] := by
        rw [List.drop_eq_nil_iff]
        rw [hitems, hmore] at hstop
        simp only [Bool.or_eq_true, Bool.not_eq_true', decide_eq_false_iff_not,
          List.isEmpty_iff, List.take_eq_nil_iff, List.drop_eq_nil_iff] at hstop
        omega
      rw [hrest, List.take_nil, List.append_nil, ← hitems] at hpost
      exact hpost
    · rw [Dialogue.ensures_bind, walkPage_next]
      refine ih (by omega) ?_ fun _ => hallows
      intro _
      rw [← hitems] at hpost
      exact hpost

/-- A walk returns the selected records in their order, as far as it reaches. -/
theorem ensures_allRecords {domain : String} {query : RecordQuery}
    {post : List StoredRecord → Zone → Prop} (hinv : ∀ c, c.writes = false → inv c z)
    (herr : ∀ e, z.failures.lookup .listRecords = some e → err e z)
    (hpost : z.failures.lookup .listRecords = none →
      post ((z.matching domain query).take walkReach) z) :
    (Remote.allRecords domain query).Ensures remote inv post err z := by
  refine ensures_recordsFrom (n := 0) (by simp) hinv herr ?_ (by simp [Remote.walkLimit])
  rw [Nat.zero_mul, List.drop_zero]
  exact hpost

/-! ## Weighted hosts -/

theorem lookup_eq_find? (name : String) (switches : List (String × Bool)) :
    switches.lookup name = (switches.find? fun s => s.1 == name).map (·.2) := by
  induction switches with
  | nil => rfl
  | cons s rest ih =>
    obtain ⟨n, p⟩ := s
    by_cases h : n = name
    · simp [h]
    · have h' : ¬ name = n := fun heq => h heq.symm
      simp [List.lookup_cons, beq_eq_false_iff_ne.mpr h, beq_eq_false_iff_ne.mpr h', ih]

theorem name_of_weightedHosts (z : Zone) (domain host : String) :
    ∀ h ∈ z.weightedHosts domain (some host), h.name = fullName host domain := by
  intro h hh
  simp only [weightedHosts, List.mem_map, List.mem_filter, Option.all_some, beq_iff_eq] at hh
  obtain ⟨s, ⟨_, hs⟩, rfl⟩ := hh
  exact hs

/-- The entry of a host among the weighted hosts of its own name. -/
theorem find?_weightedHosts (z : Zone) (domain host : String) :
    (((z.weightedHosts domain (some host)).find? fun h =>
        Text.sameLetters h.name (fullName host domain)).map (·.isOpen)).getD false =
      z.isOpen (fullName host domain) := by
  have hall := name_of_weightedHosts z domain host
  have hfirst : ((z.weightedHosts domain (some host)).find? fun h =>
      Text.sameLetters h.name (fullName host domain)) =
        (z.weightedHosts domain (some host)).head? := by
    cases hcase : z.weightedHosts domain (some host) with
    | nil => rfl
    | cons h rest =>
      have hname := hall h (by rw [hcase]; exact List.mem_cons_self)
      simp [hname]
  rw [hfirst, isOpen, lookup_eq_find?]
  simp only [weightedHosts, Option.all_some, List.head?_map, List.head?_filter, Option.map_map]
  cases z.weighting.find? fun s => s.1 == fullName host domain <;> rfl

theorem ensures_weightedHost? {domain host : String}
    {post : Option WeightedHost → Zone → Prop} (hinv : ∀ c, c.writes = false → inv c z)
    (herr : ∀ e, z.failures.lookup .listWeightedHosts = some e → err e z)
    (hpost : ∀ found : Option WeightedHost,
      (found.map (·.isOpen)).getD false = z.isOpen (fullName host domain) → post found z) :
    (Remote.weightedHost? domain host (fullName host domain)).Ensures remote inv post err z := by
  unfold Remote.weightedHost? Remote.walkLimit
  rw [Remote.weightedHostFrom, Dialogue.ensures_bind]
  refine ensures_call (hinv _ rfl) herr ?_
  intro _
  refine ⟨hinv _ rfl, ?_⟩
  have hopen := find?_weightedHosts z domain host
  have hname := name_of_weightedHosts z domain host
  simp only [perform, Dialogue.Ended, Page.ofItems]
  cases hfind : (z.weightedHosts domain (some host)).find? fun h =>
      Text.sameLetters h.name (fullName host domain) with
  | some h =>
    rw [hfind] at hopen
    exact hpost (some h) hopen
  | none =>
    -- the keyword selects the host itself only, so not to find it means that the page is empty
    have hempty : z.weightedHosts domain (some host) = [] := by
      rw [List.eq_nil_iff_forall_not_mem]
      intro h hh
      have := List.find?_eq_none.mp hfind h hh
      rw [hname h hh] at this
      simp at this
    rw [hfind] at hopen
    simpa [hempty] using hpost none hopen

end Zone

end WeightedDns
