import WeightedDns.Proofs.Record.Validation
import WeightedDns.Proofs.Update.Grow
import WeightedDns.Proofs.Update.Keep

/-!
# Entries that are new

Entries that only the desired set has are created one by one after those that are kept. `Creating`
is how far an update has come with them, and `Creating.step` one entry more: its record exists and
fits, and weight, remark and status are those of the entry. `ensures_creating` is the whole loop.
-/

namespace WeightedDns

open Lifecycle

namespace Zone

/-- How far an update has come with the entries that only the desired set has: some have got
records since the zone was `zb` and the progress `p₀`. -/
structure Creating (zb : Zone) (p₀ : Progress) (new : RecordSet) (deferred : Bool)
    (placed : List (Entry × String)) (p : Progress) (z : Zone) : Prop
    extends Grown zb new placed z where
  entries : placed.map (·.1) <+: new.entries.drop p₀.ids.length
  ids : p.ids = p₀.ids ++ placed.map (·.2)
  known : (p.known = none ∧ placed = [] ∧ z = zb) ∨ p.known = some (zb.listing new)
  adorned : ∀ q ∈ placed, ∃ r, z.record? q.2 = some r ∧ Adorned new p.pending q.1 r
  pending : p₀.pending ⊆ p.pending
  waits : Waits new deferred p.ids p.pending

/-- What a new entry asks for beyond what its record carries brings the record in line. -/
theorem TouchedTo.adorned_starting {new : RecordSet} {deferred : Bool} {e : Entry}
    {carried : Extras} {r r' : StoredRecord} (hremark : carried.remark = r.remark.getD "")
    (hstatus : carried.status = r.status)
    (h : TouchedTo deferred (startingWeight new e) (missingRemark e carried)
      (missingStatus e carried) r r') (pending : List (String × UInt32)) :
    Adorned new (pending ++ waiting deferred r.id (startingWeight new e)) e r' := by
  refine ⟨?_, ?_, ?_⟩
  · intro hon hweight
    have hstarting : startingWeight new e = some e.weight := by
      simp [startingWeight, hon, hweight]
    have hkept := h.weight
    rw [hstarting] at hkept
    cases deferred with
    | false => exact .inl hkept
    | true =>
      refine .inr (List.mem_append_right _ (mem_waiting.mpr ⟨rfl, hstarting, ?_⟩))
      exact id_eq_of_core_eq h.core
  · rw [h.remark, ← hremark, missingRemark_getD]
  · rw [h.status, ← hstatus, missingStatus_getD]

theorem prefix_concat {α : Type} {l l' : List α} {a : α} (h : l <+: l')
    (ha : l'[l.length]? = some a) : l ++ [a] <+: l' := by
  obtain ⟨rest, rfl⟩ := h
  rw [List.getElem?_append_right (Nat.le_refl _), Nat.sub_self] at ha
  cases rest with
  | nil => nomatch ha
  | cons b rest =>
    obtain rfl : b = a := Option.some.inj ha
    exact ⟨rest, by simp⟩

/-- Entries that have got their records keep their places among all entries. -/
theorem getElem?_of_placed {placed : List (Entry × String)} {entries : List Entry} {n i : Nat}
    {q : Entry × String} (h : placed.map (·.1) <+: entries.drop n) (hq : placed[i]? = some q) :
    entries[n + i]? = some q.1 := by
  obtain ⟨rest, hrest⟩ := h
  have hi := (List.getElem?_eq_some_iff.mp hq).1
  rw [← List.getElem?_drop, ← hrest, List.getElem?_append_left (by simpa using hi),
    List.getElem?_map, hq, Option.map_some]

section

variable {zb z : Zone} {p₀ p : Progress} {new : RecordSet} {deferred : Bool}
  {placed : List (Entry × String)} {a : Entry} {inv : Call → Zone → Prop}
  {err : LifecycleError → Zone → Prop}

theorem Creating.zero {p₀ : Progress} (tidy : zb.Tidy) (known : p₀.known = none)
    (waits : Waits new deferred p₀.ids p₀.pending) : Creating zb p₀ new deferred [] p₀ zb where
  toGrown := .refl tidy new
  entries := List.nil_prefix
  ids := by simp
  known := .inl ⟨known, rfl, rfl⟩
  adorned _ hq := nomatch hq
  pending := fun _ h => h
  waits := waits

theorem Creating.length_ids (h : Creating zb p₀ new deferred placed p z) :
    p.ids.length = p₀.ids.length + placed.length := by
  rw [h.ids, List.length_append, List.length_map]

theorem Creating.snoc_entries (h : Creating zb p₀ new deferred placed p z)
    (ha : new.entries[p.ids.length]? = some a) :
    placed.map (·.1) ++ [a] <+: new.entries.drop p₀.ids.length := by
  refine prefix_concat h.entries ?_
  rw [List.getElem?_drop, List.length_map, ← h.length_ids]
  exact ha

theorem Creating.value_ne (h : Creating zb p₀ new deferred placed p z) (valid : new.Admissible)
    (ha : new.entries[p.ids.length]? = some a) : ∀ q ∈ placed, q.1.value ≠ a.value := by
  intro q hq hvalue
  obtain ⟨i, hi⟩ := List.mem_iff_getElem?.mp hq
  have hlt := (List.getElem?_eq_some_iff.mp hi).1
  -- entries that share a value are one entry, but this one comes after all that have been placed
  have hsame := valid.index_eq (getElem?_of_placed h.entries hi) ha hvalue
  rw [h.length_ids] at hsame
  omega

/-- One more entry has got its record, with everything that the entry asks for. -/
theorem Creating.snoc (h : Creating zb p₀ new deferred placed p z)
    (ha : new.entries[p.ids.length]? = some a) {id : String} {z' : Zone}
    (hgrown : Grown zb new (placed ++ [(a, id)]) z')
    (hothers : ∀ id', id' ≠ id → z'.record? id' = z.record? id') {r : StoredRecord}
    (hr : z'.record? id = some r)
    (hadorned : Adorned new (p.pending ++ waiting deferred id (startingWeight new a)) a r)
    {p' : Progress} (hp' : p' = ⟨p.ids ++ [id],
      p.pending ++ waiting deferred id (startingWeight new a), some (zb.listing new)⟩) :
    Creating zb p₀ new deferred (placed ++ [(a, id)]) p' z' := by
  subst hp'
  refine ⟨hgrown, ?_, ?_, .inr rfl, ?_, ?_, ?_⟩
  · rw [List.map_append]
    exact h.snoc_entries ha
  · simp [h.ids]
  · intro q hq
    rcases List.mem_append.mp hq with hq | hq
    · obtain ⟨s, hs, hadorned⟩ := h.adorned q hq
      refine ⟨s, ?_, hadorned.mono (List.subset_append_left _ _)⟩
      rw [hothers q.2 (hgrown.ne_of_snoc hq), hs]
    · obtain rfl := List.mem_singleton.mp hq
      exact ⟨r, hr, hadorned⟩
  · intro q hq
    exact List.mem_append_left _ (h.pending hq)
  · intro q hq
    rcases List.mem_append.mp hq with hq | hq
    · obtain ⟨hdeferred, i, e, hi, he, hw⟩ := h.waits q hq
      refine ⟨hdeferred, i, e, ?_, he, hw⟩
      rw [List.getElem?_append_left (List.getElem?_eq_some_iff.mp hi).1]
      exact hi
    · obtain ⟨hdeferred, hweight, hid⟩ := mem_waiting.mp hq
      refine ⟨hdeferred, p.ids.length, a, ?_, ha, (startingWeight_eq_some hweight).1⟩
      rw [List.getElem?_concat_length, hid]

theorem Creating.step (h : Creating zb p₀ new deferred placed p z) (tidyb : zb.Tidy)
    (valid : new.Admissible) (ha : new.entries[p.ids.length]? = some a)
    (sure : zb.failures = [] ∨ ∀ e z', err e z')
    (hinv : ∀ (c : Call) (placed : List (Entry × String)) (z' : Zone),
      placed.map (·.1) <+: new.entries.drop p₀.ids.length → Grown zb new placed z' → inv c z')
    (hclosed : deferred = false → new.weighting.isOn = true → zb.isOpen (setName new) = false →
      ∀ e z', err e z')
    (htaken : (∃ r ∈ zb.records, r.host = new.host ∧ r.type = new.type ∧
      r ∉ zb.listing new) → ∀ e z', err e z') :
    (runCreate new deferred a p).Ensures remote inv
      (fun p' z' => ∃ id, Creating zb p₀ new deferred (placed ++ [(a, id)]) p' z') err z := by
  have hplaced : ∀ id : String,
      (placed ++ [(a, id)]).map (·.1) <+: new.entries.drop p₀.ids.length := by
    intro id
    rw [List.map_append]
    exact h.snoc_entries ha
  -- the listing is that of `zb`, whether it is asked for now or has been before
  have hrest : (ensure new (zb.listing new) a >>= fun found =>
      touch deferred found.1 (startingWeight new a) (missingRemark a found.2)
        (missingStatus a found.2) { p with known := some (zb.listing new) } >>= fun p =>
      pure { p with ids := p.ids ++ [found.1] }).Ensures remote inv
      (fun p' z' => ∃ id, Creating zb p₀ new deferred (placed ++ [(a, id)]) p' z') err z := by
    rw [Dialogue.ensures_bind]
    refine (h.toGrown.ensure (h.value_ne valid ha) sure ?_ tidyb ?_).weaken ?_
    · rintro c placed' z' (rfl | ⟨id, rfl⟩) hgrown
      · exact hinv c placed' z' h.entries hgrown
      · exact hinv c _ z' (hplaced id) hgrown
    · rintro ⟨r, hr, hhost, htype, -, hnot⟩
      exact htaken ⟨r, hr, hhost, htype, hnot⟩
    · rintro ⟨id, carried⟩ z₁ ⟨hgrown, hothers, r, hr, hremark, hstatus⟩
      have hlast : (a, id) ∈ placed ++ [(a, id)] := List.mem_append_right _ List.mem_cons_self
      have hmem : id ∈ (placed ++ [(a, id)]).map (·.2) := List.mem_map_of_mem hlast
      obtain ⟨r₁, hr₁, hfits⟩ := hgrown.made (a, id) hlast
      obtain rfl : r = r₁ := Option.some.inj (hr.symm.trans hr₁)
      rw [Dialogue.ensures_bind]
      refine ensures_touch hgrown.tidy (by rw [hgrown.failures]; exact sure)
        (fun c z' ht => hinv c _ z' (hplaced id) (hgrown.touched hmem ht)) ?_ ?_ ?_
      · intro hnone
        rw [hr] at hnone
        cases hnone
      · intro w r₁ hnow hweight hr₁ hopen
        obtain rfl : r = r₁ := Option.some.inj (hr.symm.trans hr₁)
        refine hclosed hnow (startingWeight_eq_some hweight).2.1 ?_
        rw [← isOpen_congr hgrown.weighting, setName, ← hfits.host, ← hfits.domain]
        exact hopen
      · intro z' ht htouched
        obtain ⟨r', hr', hto⟩ := htouched r hr
        have hadorned := hto.adorned_starting hremark hstatus p.pending
        rw [id_of_record? hr] at hadorned
        refine ⟨id, h.snoc ha (hgrown.touched hmem ht) ?_ hr' hadorned rfl⟩
        intro id' hne
        rw [ht.others id' hne, hothers id' hne]
  rw [runCreate_eq, Dialogue.ensures_bind]
  rcases h.known with ⟨hnone, -, rfl⟩ | hsome
  · rw [hnone]
    exact ensures_listed sure (fun c _ => hinv c placed z h.entries h.toGrown) hrest
  · rw [hsome]
    exact hrest

/-- All entries that are left get their records. -/
theorem ensures_creating (tidyb : zb.Tidy) (valid : new.Admissible) (known : p₀.known = none)
    (waits : Waits new deferred p₀.ids p₀.pending) (hlength : p₀.ids.length ≤ new.entries.length)
    (sure : zb.failures = [] ∨ ∀ e z', err e z')
    (hinv : ∀ (c : Call) (placed : List (Entry × String)) (z' : Zone),
      placed.map (·.1) <+: new.entries.drop p₀.ids.length → Grown zb new placed z' → inv c z')
    (hclosed : deferred = false → new.weighting.isOn = true → zb.isOpen (setName new) = false →
      ∀ e z', err e z')
    (htaken : (∃ r ∈ zb.records, r.host = new.host ∧ r.type = new.type ∧
      r ∉ zb.listing new) → ∀ e z', err e z') :
    (runActions new deferred p₀ (Plan.createsFrom p₀.ids.length
      (new.entries.drop p₀.ids.length))).Ensures remote inv
      (fun p z => p.ids.length = new.entries.length ∧
        ∃ placed, Creating zb p₀ new deferred placed p z) err zb := by
  -- the index of an entry is the number of IDs so far
  refine (ensures_creates (A := fun i p z' => i = p.ids.length ∧ ∃ placed,
    Creating zb p₀ new deferred placed p z') ?_ rfl ⟨rfl, [], .zero tidyb known waits⟩).weaken ?_
  · rintro i e p z' he ⟨rfl, placed, h⟩
    rw [runAction_create he, if_neg (fun hne => hne rfl)]
    refine (h.step tidyb valid he sure hinv hclosed htaken).weaken ?_
    rintro p' z'' ⟨id, h'⟩
    refine ⟨?_, _, h'⟩
    rw [h'.length_ids, h.length_ids, List.length_append, List.length_singleton, Nat.add_assoc]
  · rintro p z' ⟨hsize, h⟩
    refine ⟨?_, h⟩
    rw [List.length_drop] at hsize
    omega

end

end Zone

end WeightedDns
