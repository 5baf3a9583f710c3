import WeightedDns.Proofs.Create.Created
import WeightedDns.Proofs.Update.Standing

/-!
# What a create delivers

While nothing fails, a create in a zone that its listing reaches succeeds (`create_delivers`): every
entry gets a record of its own as it is configured, taken over where there is one of host, type and
value and added where there is none, weighting is on where it is to be, and nothing else in the zone
changes.
-/

namespace WeightedDns

open Lifecycle

namespace Zone

/-- Whether a record of host, type and value of an entry is stored. -/
def has (z : Zone) (s : RecordSet) (e : Entry) : Bool :=
  z.records.any fun r => r.host == s.host && r.type == s.type && r.value == e.value

variable {z₀ z : Zone} {s : RecordSet} {t : TrackedSet} {e : Entry} {i : Nat} {id : String}

theorem has_iff :
    z.has s e = true ↔ ∃ r ∈ z.records, r.host = s.host ∧ r.type = s.type ∧ r.value = e.value := by
  simp [has, and_assoc]

/-- The records that are added are those of entries that no record is stored for. -/
theorem map_filter_new {placed : List (Entry × String)}
    (h : ∀ q ∈ placed, z₀.record? q.2 = none ↔ z₀.has s q.1 = false) :
    ((placed.filter fun q => (z₀.record? q.2).isNone).map fun q => NewRecord.of s q.1) =
      ((placed.map (·.1)).filter fun e => !z₀.has s e).map (.of s) := by
  have hfilter : (placed.filter fun q => (z₀.record? q.2).isNone) =
      placed.filter fun q => !z₀.has s q.1 := by
    refine List.filter_congr ?_
    intro q hq
    rw [Bool.eq_iff_iff, Option.isNone_iff_eq_none, h q hq]
    simp
  rw [hfilter, List.filter_map, List.map_map]
  rfl

/-! ## The zone afterwards -/

/-- The records of a set that has been created stand as they are configured. -/
theorem Founded.standing (h : Founded z₀ s t z) : Standing z s t where
  tracks := h.tracks
  size := h.size
  record i e he := by
    obtain ⟨r, hr, hfits, hadorned⟩ := h.toEquipped.fetched he
    exact ⟨r, hr, hfits.toCarries, hadorned, fun _ => hfits.priority⟩

/-- Where weighting is to be on, it has been switched on. -/
theorem Founded.opened (h : Founded z₀ s t z) (hon : s.weighting.isOn = true) :
    z.isOpen (setName s) = true := by
  rw [isOpen, h.weighting, if_pos hon, lookup_setSwitch, if_pos rfl]
  rfl

/-- Where weighting is to be off, no switch is moved. -/
theorem Founded.isOpen_eq (h : Founded z₀ s t z) (hoff : s.weighting.isOn = false) (name : String) :
    z.isOpen name = z₀.isOpen name := by
  rw [isOpen, h.weighting, hoff]
  rfl

theorem Founded.lookup_weighting (h : Founded z₀ s t z) {name : String} (hname : name ≠ setName s) :
    z.weighting.lookup name = z₀.weighting.lookup name := by
  rw [h.weighting]
  split
  · rw [lookup_setSwitch, if_neg hname]
  · rfl

section

variable (hall : ∀ r ∈ z₀.records, r.domain = s.domain) (hreach : z₀.records.length ≤ walkReach)
include hall hreach

/-- An entry that has got its record has taken one over where a record of host, type and value is
stored, and a new one where there is none. -/
theorem new_iff (horigin : ∀ r, z₀.record? id = some r → r ∈ z₀.listing s ∧ r.value = e.value)
    (hunlisted : z₀.record? id = none → ∀ r ∈ z₀.listing s, r.value ≠ e.value) :
    z₀.record? id = none ↔ z₀.has s e = false := by
  constructor
  · intro hnone
    rw [← Bool.not_eq_true, has_iff]
    rintro ⟨r, hr, hhost, htype, hvalue⟩
    exact hunlisted hnone r (listing_complete hr (hall r hr) hhost htype hreach) hvalue
  · intro hnot
    cases hr : z₀.record? id with
    | none => rfl
    | some r =>
      obtain ⟨hlisted, hvalue⟩ := horigin r hr
      obtain ⟨hmem, -, hhost, htype⟩ := mem_listing hlisted
      rw [has_iff.mpr ⟨r, hmem, hhost, htype, hvalue⟩] at hnot
      cases hnot

theorem Equipped.record?_iff {ids : List String} (h : Equipped z₀ s ids z)
    (he : s.entries[i]? = some e) (hid : ids[i]? = some id) :
    z₀.record? id = none ↔ z₀.has s e = false :=
  new_iff hall hreach (h.origin i e id he hid) (h.unlisted i e id he hid)

/-- The entries that no record is stored for are those that are added, in their order. -/
theorem Equipped.added_eq {ids : List String} (h : Equipped z₀ s ids z) :
    z.added = z₀.added ++ (s.entries.filter fun e => !z₀.has s e).map (.of s) := by
  have hnew : ∀ q ∈ s.entries.zip ids, z₀.record? q.2 = none ↔ z₀.has s q.1 = false := fun q hq =>
    new_iff hall hreach (h.grown.origin q hq) (h.grown.unlisted q hq)
  rw [h.added, map_filter_new hnew, List.map_fst_zip (Nat.le_of_eq h.size.symm)]

/-- While nothing fails, a create succeeds. -/
theorem exists_founded (tidy : z₀.Tidy) (calm : z₀.failures = []) (preflight : Bool)
    (valid : s.fault? = none) (hdomain : s.domain = domain) :
    ∃ t z, (create preflight s).run remote z₀ = (.ok t, z) ∧ Founded z₀ s t z := by
  have hensures : (create preflight s).Ensures remote (fun _ _ => True)
      (fun t z => Founded z₀ s t z) (fun _ _ => False) z₀ := by
    refine ensures_founded (.inl calm) (fun _ _ _ => trivial) tidy ?_ preflight ?_ ?_
      fun _ _ h => h
    · intro hfault
      exact absurd valid hfault
    · intro _ hother
      exact absurd hdomain hother
    · rintro ⟨r, hr, hhost, htype, hnot⟩
      exact absurd (listing_complete hr (hall r hr) hhost htype hreach) hnot
  exact hensures.exists_run

end

/-- While nothing fails, creating an admissible set of the zone succeeds. Every entry comes back as
configured, with a record of its own that was there already or is new. The zone holds the set then,
and other records and switches are as they were. -/
theorem create_delivers (h : z.Reachable) (calm : z.failures = [])
    (hall : ∀ r ∈ z.records, r.domain = domain) (hreach : z.records.length ≤ 49950)
    (preflight : Bool) (valid : s.fault? = none) (hdomain : s.domain = domain) :
    ∃ t z', (create preflight s).run remote z = (.ok t, z') ∧
      t.id.ids.Nodup ∧ t.id.ids.length = s.entries.length ∧
      t.config.entries.length = s.entries.length ∧
      t.config.host = s.host ∧ t.config.type = s.type ∧ t.config.line = s.line ∧
      (s.weighting = .enabled → t.config.weighting = .enabled) ∧
      (∀ (i : Nat) (e : Entry), s.entries[i]? = some e →
        ∃ b, t.config.entries[i]? = some b ∧ b.value = e.value ∧ b.ttl = e.ttl ∧
          b.status = e.status ∧ b.remarkText = e.remarkText ∧
          (s.weighting.isOn = true → e.weight ≠ 0 → b.weight = e.weight)) ∧
      (∀ (i : Nat) (e : Entry), s.entries[i]? = some e →
        ∃ id r', t.id.ids[i]? = some id ∧ z'.record? id = some r' ∧ r'.Fits s e ∧
          (z.has s e = true → ∃ r, z.record? id = some r ∧ r.host = s.host ∧ r.type = s.type ∧
            r.value = e.value) ∧
          (z.has s e = false → z.record? id = none)) ∧
      z'.Holds s t ∧
      z'.added = z.added ++ (s.entries.filter fun e => !z.has s e).map (.of s) ∧
      (∀ id, id ∉ t.id.ids → z'.record? id = z.record? id) ∧
      (s.weighting.isOn = false → z'.weighting = z.weighting) ∧
      ∀ name, name ≠ setName s → z'.weighting.lookup name = z.weighting.lookup name := by
  have admissible := RecordSet.fault?_eq_none_iff.mp valid
  rw [← hdomain] at hall
  have hwalk : z.records.length ≤ walkReach := Nat.le_trans hreach (by decide)
  obtain ⟨t, z', hrun, hfounded⟩ := exists_founded hall hwalk h.tidy calm preflight valid hdomain
  have hstanding := hfounded.standing
  obtain ⟨hhost, htype, hline, hweighting, -⟩ := hstanding.first admissible
  -- one record for an entry at most is added, and sets of that size stay within a walk
  have hwalk' : z'.records.length ≤ walkReach := by
    have hgrown := hfounded.length
    have hbound := admissible.entries_bounded
    have hfits : 49950 + RecordSet.entryLimit ≤ walkReach := by decide
    omega
  have hsize := hfounded.size
  have hholds := hstanding.holds (hfounded.failures.trans calm) hfounded.opened
  refine ⟨t, z', hrun, hfounded.nodup, hsize, hstanding.tracks.size.symm.trans hsize, hhost, htype,
    hline, ?_, ?_, ?_, hholds, hfounded.added_eq hall hwalk, hfounded.others, ?_, ?_⟩
  · intro hon
    rw [hweighting, hfounded.opened (by rw [hon]; rfl)]
    rfl
  · intro i e he
    obtain ⟨b, hb, hvalue, httl, hstatus, hremark, hweight⟩ := hstanding.entry he
    exact ⟨b, hb, hvalue, httl, hstatus, hremark, hweight hwalk'⟩
  · intro i e he
    obtain ⟨id, hid⟩ := hfounded.exists_id he
    obtain ⟨r', hr', hfits, -⟩ := hfounded.made i e id he hid
    have hnone := hfounded.toEquipped.record?_iff hall hwalk he hid
    refine ⟨id, r', hid, hr', hfits, ?_, hnone.mpr⟩
    intro hhas
    cases hr : z.record? id with
    | none =>
      rw [hnone.mp hr] at hhas
      cases hhas
    | some r =>
      obtain ⟨hlisted, hvalue⟩ := hfounded.origin i e id he hid r hr
      obtain ⟨-, -, hhost', htype'⟩ := mem_listing hlisted
      exact ⟨r, rfl, hhost', htype', hvalue⟩
  · intro hoff
    rw [hfounded.weighting, hoff]
    rfl
  · intro name hname
    exact hfounded.lookup_weighting hname

/-- Two weighted entries of a host, of which the first has the value of record 1001. -/
def widened : RecordSet :=
  ⟨"example.com", "www", .a, RecordSet.defaultLine, none, .enabled,
    [⟨"192.0.2.2", 300, 10, .disabled, some "spare"⟩, ⟨"192.0.2.3", 600, 20, .enabled, none⟩]⟩

/-- Both records are stored with their weights, the first with its remark and its status. -/
theorem pair_widened :
    ∃ t z', (create true widened).run remote pair = (.ok t, z') ∧ t.id.ids.length = 2 ∧
      (∃ id r, t.id.ids[0]? = some id ∧ z'.record? id = some r ∧ r.value = "192.0.2.2" ∧
        r.ttl = 300 ∧ r.weight = some 10 ∧ r.status = .disabled ∧ r.remark.getD "" = "spare") ∧
      (∃ id r, t.id.ids[1]? = some id ∧ z'.record? id = some r ∧ r.value = "192.0.2.3" ∧
        r.weight = some 20 ∧ r.status = .enabled ∧ r.remark.getD "" = "") ∧
      z'.isOpen "www.example.com" = true ∧
      (read? t.id "example.com").run remote z' = (.ok (some t), z') ∧
      z'.added = [.of widened ⟨"192.0.2.3", 600, 20, .enabled, none⟩] ∧
      ("1000" ∉ t.id.ids → z'.record? "1000" = pair.record? "1000") := by
  have hall : ∀ r ∈ pair.records, r.domain = domain := by decide
  obtain ⟨t, z', hrun, -, hsize, -, -, -, -, -, -, -, hholds, hadded, hothers, -⟩ :=
    create_delivers (s := widened) pair_reachable rfl hall (by decide) true (by decide) rfl
  obtain ⟨id₀, r₀, hid₀, hr₀, hfirst⟩ := hholds.record 0 _ rfl
  obtain ⟨id₁, r₁, hid₁, hr₁, hsecond⟩ := hholds.record 1 _ rfl
  have hopen : z'.isOpen "www.example.com" = true := by
    have hname : setName widened = "www.example.com" := by decide
    rw [← hname]
    exact hholds.opened rfl
  exact ⟨t, z', hrun, hsize,
    ⟨id₀, r₀, hid₀, hr₀, hfirst.value, hfirst.ttl, hfirst.weight rfl (by decide), hfirst.status,
      hfirst.remark⟩,
    ⟨id₁, r₁, hid₁, hr₁, hsecond.value, hsecond.weight rfl (by decide), hsecond.status,
      hsecond.remark⟩,
    hopen, hholds.read, hadded, hothers "1000"⟩

end Zone

end WeightedDns
