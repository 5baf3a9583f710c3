import WeightedDns.Proofs.Record.Validation
import WeightedDns.Proofs.Update.Group

/-!
# Updating a set to what it is

Where the records of a set stand as they are configured, an update to the same configuration has
next to nothing to do: it sets the weights that reading did not find, and switches weighting off
where it has been left on. `remaining` lists these calls, and `Standing.ensures_update` says that
no other call writes.
-/

namespace WeightedDns

open Lifecycle

/-- The weights that an update to a configuration still has to set for the first `n` entries. -/
def remainingWeights (t : TrackedSet) (s : RecordSet) (n : Nat) : List Call :=
  (((t.config.entries.zip t.id.ids).zip s.entries).take n).filterMap fun x =>
    (Plan.weightChange t.config s x.1.1 x.2).map (.setWeight x.1.2)

/-- The writing calls that an update to a configuration still has to make, weights first. -/
def remaining (t : TrackedSet) (s : RecordSet) : List Call :=
  remainingWeights t s s.entries.length ++
    (Plan.weightingChange t.config s).toList.map fun position =>
      .setWeighting ⟨s.domain, s.host, some s.type, some s.line, position.isOn⟩

section

variable {t : TrackedSet} {s : RecordSet} {i : Nat} {b e : Entry} {id : String}

theorem remainingWeights_zero (t : TrackedSet) (s : RecordSet) : remainingWeights t s 0 = [] := by
  rw [remainingWeights, List.take_zero, List.filterMap_nil]

theorem remainingWeights_succ (hb : (t.config.entries.zip t.id.ids)[i]? = some (b, id))
    (he : s.entries[i]? = some e) :
    remainingWeights t s (i + 1) = remainingWeights t s i ++
      ((Plan.weightChange t.config s b e).map (.setWeight id)).toList := by
  have hitem : ((t.config.entries.zip t.id.ids).zip s.entries)[i]? = some ((b, id), e) :=
    List.getElem?_zip_eq_some.mpr ⟨hb, he⟩
  rw [remainingWeights, remainingWeights, List.take_add_one, hitem, List.filterMap_append]
  cases h : Plan.weightChange t.config s b e <;> simp [h]

/-- Nothing remains exactly if all weights are those of the entries and the switch stays. -/
theorem remaining_eq_nil_iff : remaining t s = [] ↔
    (∀ (i : Nat) (b e : Entry) (id : String), (t.config.entries.zip t.id.ids)[i]? = some (b, id) →
      s.entries[i]? = some e → Plan.weightChange t.config s b e = none) ∧
      Plan.weightingChange t.config s = none := by
  have htake : ((t.config.entries.zip t.id.ids).zip s.entries).take s.entries.length =
      (t.config.entries.zip t.id.ids).zip s.entries := by
    refine List.take_of_length_le ?_
    rw [List.length_zip]
    exact Nat.min_le_right _ _
  rw [remaining, List.append_eq_nil_iff, remainingWeights, htake, List.filterMap_eq_nil_iff]
  refine and_congr ?_ (by cases Plan.weightingChange t.config s <;> simp)
  constructor
  · intro h i b e id hb he
    have hitem : ((t.config.entries.zip t.id.ids).zip s.entries)[i]? = some ((b, id), e) :=
      List.getElem?_zip_eq_some.mpr ⟨hb, he⟩
    have hnone := h _ (List.mem_of_getElem? hitem)
    simpa using hnone
  · rintro h ⟨⟨b, id⟩, e⟩ hmem
    obtain ⟨i, hi⟩ := List.mem_iff_getElem?.mp hmem
    obtain ⟨hb, he⟩ := List.getElem?_zip_eq_some.mp hi
    rw [h i b e id hb he]
    rfl

end

/-- A record is stored as an entry of a set is configured. Its weight may be any where weighting is
off or the entry leaves it open. -/
structure StoredRecord.Configured (s : RecordSet) (e : Entry) (r : StoredRecord) : Prop
    extends StoredRecord.Carries s e r where
  weight : s.weighting.isOn = true → e.weight ≠ 0 → r.weight = some e.weight
  remark : r.remark.getD "" = e.remarkText
  status : r.status = e.status

namespace Zone

/-- Remark and status are those of the entry, and so is the weight where none is waiting. -/
theorem Adorned.configured {s : RecordSet} {e : Entry} {r : StoredRecord} (h : Adorned s [] e r)
    (hcarries : r.Carries s e) : r.Configured s e where
  toCarries := hcarries
  weight hon hweight := (h.weight hon hweight).resolve_right List.not_mem_nil
  remark := h.remark
  status := h.status

/-- The zone holds a set as it is configured: a record under each ID, weighting where it is to be
on, and the tracked set is what reading these IDs gives. -/
structure Holds (z : Zone) (s : RecordSet) (t : TrackedSet) : Prop where
  record : ∀ (i : Nat) (e : Entry), s.entries[i]? = some e →
    ∃ id r, t.id.ids[i]? = some id ∧ z.record? id = some r ∧ r.Configured s e
  opened : s.weighting.isOn = true → z.isOpen (setName s) = true
  read : (read? t.id s.domain).run remote z = (.ok (some t), z)

/-- The zone has the records of the set as they are configured, and the tracked set is what is
read of them. -/
structure Standing (z : Zone) (s : RecordSet) (t : TrackedSet) : Prop where
  tracks : Tracks z s.domain (z.fetched t.id.ids) t
  size : t.id.ids.length = s.entries.length
  record : ∀ (i : Nat) (e : Entry), s.entries[i]? = some e →
    ∃ r, (z.fetched t.id.ids)[i]? = some r ∧ r.Carries s e ∧ Adorned s [] e r ∧
      (i = 0 → s.priority = none ∨ r.priority = s.priority)

variable {z : Zone} {s : RecordSet} {t : TrackedSet} {i : Nat} {b e : Entry} {id : String}

/-- A change that leaves the record with the ID as it is leaves the zone as it is. -/
theorem edit_eq_self {f : StoredRecord → StoredRecord}
    (h : ∀ r ∈ z.records, r.id = id → f r = r) : z.edit id f = z := by
  have hsame : (z.records.map fun r => if r.id = id then f r else r) = z.records := by
    refine (List.map_congr_left ?_).trans (List.map_id _)
    intro r hr
    split
    · rename_i hid
      exact h r hr hid
    · rfl
  rw [edit, hsame]

namespace Standing

theorem first (h : Standing z s t) (valid : s.Admissible) :
    t.config.host = s.host ∧ t.config.type = s.type ∧ t.config.line = s.line ∧
      t.config.weighting = .ofBool (z.isOpen (setName s)) ∧
      (s.priority = none ∨ t.config.priority = s.priority) := by
  obtain ⟨first, hfirst, hhost, htype, hline, hpriority, hweighting, -⟩ := h.tracks.shared
  have he := List.getElem?_eq_getElem (List.length_pos_iff.mpr valid.entries_nonempty)
  obtain ⟨r, hr, hcarries, -, hfits⟩ := h.record 0 _ he
  obtain rfl : first = r := Option.some.inj (hfirst.symm.trans hr)
  rw [hhost, htype, hline, hpriority, hweighting, hcarries.host]
  exact ⟨rfl, hcarries.type, hcarries.line, rfl, hfits rfl⟩

/-- The entries are read as they are configured, as far as weights are found in the listing. -/
theorem entry (h : Standing z s t) (he : s.entries[i]? = some e) :
    ∃ b, t.config.entries[i]? = some b ∧ b.value = e.value ∧ b.ttl = e.ttl ∧
      b.status = e.status ∧ b.remarkText = e.remarkText ∧
      (z.records.length ≤ walkReach → s.weighting.isOn = true → e.weight ≠ 0 →
        b.weight = e.weight) := by
  obtain ⟨first, hfirst, -, -, -, -, -, hentries⟩ := h.tracks.shared
  obtain ⟨r, hr, hcarries, hadorned, -⟩ := h.record i e he
  have hzero : 0 < s.entries.length := Nat.lt_of_le_of_lt (Nat.zero_le i)
    (List.getElem?_eq_some_iff.mp he).1
  obtain ⟨r₀, hr₀, hcarries₀, -⟩ := h.record 0 _ (List.getElem?_eq_getElem hzero)
  obtain rfl : first = r₀ := Option.some.inj (hfirst.symm.trans hr₀)
  refine ⟨z.entryRead s.domain first r, ?_, hcarries.value, hcarries.ttl, hadorned.status, ?_, ?_⟩
  · rw [hentries, List.getElem?_map, hr]
    rfl
  · rw [entryRead_remarkText]
    exact hadorned.remark
  · intro hreach hon hweight
    have hfilled := h.tracks.tidy.fillWeight_unweighted
      (h.tracks.mem r (List.mem_of_getElem? hr)) hcarries.domain
      (hcarries.host.trans hcarries₀.host.symm) (hcarries.type.trans hcarries₀.type.symm) hreach
    unfold entryRead
    rw [hfilled]
    show r.weight.getD 0 = e.weight
    rw [(hadorned.configured hcarries).weight hon hweight]
    rfl

/-- While nothing fails, a set that stands is held, given that its weighting is on if need be. -/
theorem holds (h : Standing z s t) (calm : z.failures = [])
    (hopened : s.weighting.isOn = true → z.isOpen (setName s) = true) : Holds z s t where
  record i e he := by
    obtain ⟨r, hr, hcarries, hadorned, -⟩ := h.record i e he
    refine ⟨r.id, r, ?_, h.tracks.record? hr, hadorned.configured hcarries⟩
    rw [h.tracks.ids, List.getElem?_map, hr]
    rfl
  opened := hopened
  read := by
    obtain ⟨first, hfirst, ht⟩ := h.tracks.read
    obtain ⟨rest, hfetched⟩ := List.head?_eq_some_iff.mp hfirst
    have hread := h.tracks.tidy.run_read? calm hfetched s.domain
    rwa [← hfetched, ← ht] at hread

theorem movesGroup_eq_false (h : Standing z s t) (valid : s.Admissible) :
    Plan.movesGroup t.config s = false := by
  obtain ⟨hhost, htype, hline, -⟩ := h.first valid
  exact Plan.movesGroup_eq_false_iff.mpr ⟨by simp [hhost], htype, hline⟩

/-! ## What is still planned -/

theorem weightingChange_eq (h : Standing z s t) (valid : s.Admissible) :
    Plan.weightingChange t.config s =
      if z.isOpen (setName s) = s.weighting.isOn then none else some s.weighting := by
  obtain ⟨-, -, -, hweighting, -⟩ := h.first valid
  unfold Plan.weightingChange
  rw [h.movesGroup_eq_false valid, hweighting]
  cases z.isOpen (setName s) <;> cases s.weighting <;> rfl

theorem weightChange_eq (h : Standing z s t) (valid : s.Admissible) (b e : Entry) :
    Plan.weightChange t.config s b e =
      if s.weighting.isOn && e.weight != 0 && e.weight != b.weight then some e.weight
      else none := by
  unfold Plan.weightChange
  rw [h.movesGroup_eq_false valid, Bool.false_or]

section

variable (h : Standing z s t) (calm : z.failures = [])
include h calm

/-- The core of a record is found as it is configured. -/
theorem reconcileCore (valid : s.Admissible)
    (hb : (t.config.entries.zip t.id.ids)[i]? = some (b, id)) (he : s.entries[i]? = some e)
    {inv : Call → Zone → Prop} (hinv : ∀ c, c.writes = false → inv c z) :
    (reconcileCore s e id (Plan.coreChanges t.config s b e)).Ensures remote inv
      (fun replaced z' => replaced = none ∧ z' = z) (fun _ _ => False) z := by
  obtain ⟨r, hr, rfl, -⟩ := h.tracks.zip_getElem? hb
  obtain ⟨r', hr', hcarries, -⟩ := h.record i e he
  obtain rfl : r = r' := Option.some.inj (hr.symm.trans hr')
  obtain ⟨hhost, htype, hline, -, hpriority⟩ := h.first valid
  obtain ⟨b', hb', hvalue, httl, -⟩ := h.entry he
  obtain rfl : b = b' := Option.some.inj ((List.getElem?_zip_eq_some.mp hb).1.symm.trans hb')
  -- the core is checked only for a priority that the set leaves open, and then it matches
  have hchecked : (Plan.coreChanges t.config s b e && !coreMatches r s e) = false := by
    rcases hpriority with hnone | hsame
    · have hmatches : coreMatches r s e = true := by
        rw [StoredRecord.coreMatches_iff, hcarries.host]
        exact ⟨Text.sameLetters_refl _, hcarries.type, hcarries.value, hcarries.ttl,
          hcarries.line, .inl hnone⟩
      rw [hmatches]
      simp
    · simp [Plan.coreChanges, RecordSet.sharedDiffers, hhost, htype, hline, hsame, hvalue, httl]
  have hfound := h.tracks.record? hr
  unfold Lifecycle.reconcileCore
  rw [Dialogue.ensures_bind]
  refine ensures_fetch? (.inl calm) hinv ?_ ?_
  · intro r' hr' _
    obtain rfl : r = r' := Option.some.inj (hfound.symm.trans hr')
    have hsame : coreMatches { r with weight := none } s e = coreMatches r s e := rfl
    dsimp only
    rw [hsame, hchecked]
    exact ⟨rfl, rfl⟩
  · rintro (hnone | hfails)
    · rw [hfound] at hnone
      cases hnone
    · exact absurd (lookup_failures_eq_none calm _) hfails

/-- A weight that is set is the one that the record has already. -/
theorem setWeight (hopen : z.isOpen (setName s) = true) (hid : t.id.ids[i]? = some id)
    (he : s.entries[i]? = some e) (hon : s.weighting.isOn = true) (hweight : e.weight ≠ 0)
    {inv : Call → Zone → Prop} (hinv : ∀ c z', inv c z') :
    (setWeight id e.weight).Ensures remote inv
      (fun _ z' => z' = { z with journal := z.journal ++ [.setWeight id e.weight] })
      (fun _ _ => False) z := by
  obtain ⟨r, hr, hcarries, hadorned, -⟩ := h.record i e he
  have hfound := h.tracks.record? hr
  rw [h.tracks.ids, List.getElem?_map, hr] at hid
  obtain rfl : r.id = id := Option.some.inj hid
  refine ensures_setWeight h.tracks.tidy (.inl calm) (fun c => hinv c _) ?_ ?_ ?_
  · intro hnone
    rw [hfound] at hnone
    cases hnone
  · intro r' hr' hclosed
    obtain rfl : r = r' := Option.some.inj (hfound.symm.trans hr')
    rw [hcarries.host, hcarries.domain, ← setName, hopen] at hclosed
    cases hclosed
  · intro _ _ f hf
    have hself : z.edit r.id f = z := by
      refine edit_eq_self ?_
      intro r' hr' hid
      have hfound' := h.tracks.tidy.record?_of_mem hr'
      rw [hid, hfound] at hfound'
      obtain rfl := Option.some.inj hfound'
      rw [hf, ← (hadorned.configured hcarries).weight hon hweight]
    rw [hself]
    exact ⟨fun c => hinv c _, rfl⟩

/-- All that can still be planned for a record is its weight. -/
theorem reconcile (valid : s.Admissible)
    (hopen : s.weighting.isOn = true → z.isOpen (setName s) = true)
    (hb : (t.config.entries.zip t.id.ids)[i]? = some (b, id)) (he : s.entries[i]? = some e)
    (p : Progress) {inv : Call → Zone → Prop}
    (hinv : ∀ c z', c.writes = false ∨ Plan.weightChange t.config s b e ≠ none → inv c z') :
    (runActions s false p (Plan.reconcile t.config s i id b e)).Ensures remote inv
      (fun p' z' => p' = p ∧ z' = { z with journal := z.journal ++
        ((Plan.weightChange t.config s b e).map (.setWeight id)).toList })
      (fun _ _ => False) z := by
  obtain ⟨hbefore, hid⟩ := List.getElem?_zip_eq_some.mp hb
  obtain ⟨b', hb', -, -, hstatus, hremark, -⟩ := h.entry he
  obtain rfl : b = b' := Option.some.inj (hbefore.symm.trans hb')
  have hnoremark : Plan.remarkChange b e = none :=
    Plan.remarkChange_eq_none_iff.mpr hremark.symm
  have hnostatus : Plan.statusChange b e = none := Plan.statusChange_eq_none_iff.mpr hstatus.symm
  refine ensures_planned he ?_ ?_
  · rw [hnoremark, hnostatus, runReconcile_eq, Dialogue.ensures_bind]
    refine (h.reconcileCore calm valid hb he fun c hc => hinv c z (.inl hc)).weaken ?_
    rintro _ z' ⟨rfl, rfl⟩
    dsimp only
    unfold touch weigh
    cases hchange : Plan.weightChange t.config s b e with
    | none => exact ⟨rfl, by simp⟩
    | some w =>
      obtain ⟨rfl, hon, hweight⟩ := Plan.weightChange_eq_some hchange
      have hplanned : ∀ c z', inv c z' := fun c z' => hinv c z' (.inr (by rw [hchange]; simp))
      simp only [Bool.false_eq_true, if_false, Dialogue.bind_assoc]
      rw [Dialogue.ensures_bind]
      refine (h.setWeight calm (hopen hon) hid he hon hweight hplanned).weaken ?_
      rintro _ _ rfl
      exact ⟨rfl, rfl⟩
  · intro _ hweight _ _
    rw [hweight]
    exact ⟨rfl, by simp⟩

/-- A set that stands is read back as a whole, whatever its switch is. -/
theorem readBack {z' : Zone} (tidy : z'.Tidy) (hrecords : z'.records = z.records)
    (hfailures : z'.failures = z.failures) {inv : Call → Zone → Prop}
    {post : TrackedSet → Zone → Prop} (hinv : ∀ c, c.writes = false → inv c z')
    (hpost : ∀ t', (z' = z → t' = t) → post t' z') :
    (readBack ⟨t.id.ids⟩ s).Ensures remote inv post (fun _ _ => False) z' := by
  have hsame : z'.fetched t.id.ids = z.fetched t.id.ids := by
    unfold fetched record?
    rw [hrecords]
  obtain ⟨first, hfirst, ht⟩ := h.tracks.read
  rw [← hsame] at hfirst ht
  have calm' : z'.failures = [] := hfailures.trans calm
  refine ensures_readBack tidy (.inl calm') hinv ?_ ?_ ?_
  · intro hsize
    exact absurd h.size hsize
  · rintro (hnil | hfails)
    · rw [hnil] at hfirst
      cases hfirst
    · exact absurd (lookup_failures_eq_none calm' _) hfails
  · intro first' rest hfetched _ _
    rw [hfetched] at hfirst ht
    obtain rfl : first' = first := Option.some.inj hfirst
    refine hpost _ ?_
    rintro rfl
    exact ht.symm

omit calm in
/-- What has been noted makes no difference to a set that stands. -/
theorem noted (calls : List Call) : Standing { z with journal := z.journal ++ calls } s t :=
  ⟨⟨⟨h.tracks.tidy.ids_nodup, h.tracks.tidy.ids_numbered⟩, h.tracks.allows, h.tracks.mem,
    h.tracks.nodup, h.tracks.read⟩, h.size, h.record⟩

omit calm in
theorem resourceId_eq (valid : s.Admissible) : resourceId t.id.ids = .done ⟨t.id.ids⟩ := by
  refine h.tracks.tidy.resourceId_eq (valid.ne_nil h.size) ?_
  intro id hid
  rw [h.tracks.ids] at hid
  obtain ⟨r, hr, rfl⟩ := List.mem_map.mp hid
  rw [h.tracks.tidy.record?_of_mem (h.tracks.mem r hr)]
  rfl

/-- What follows the actions is to switch weighting where that is planned. -/
theorem settle (valid : s.Admissible) {z' : Zone}
    (hz' : z' = { z with journal := z.journal ++ remainingWeights t s s.entries.length })
    {inv : Call → Zone → Prop} {post : TrackedSet → Zone → Prop}
    (hinv : ∀ c z', c.writes = false ∨ remaining t s ≠ [] → inv c z')
    (hpost : ∀ t' z', z'.journal = z.journal ++ remaining t s →
      (remaining t s = [] → t' = t ∧ z' = z) → post t' z') :
    (settle s (Plan.weightingChange t.config s) ⟨t.id.ids, [], none⟩).Ensures remote inv post
      (fun _ _ => False) z' := by
  subst hz'
  have hnoted := h.noted (remainingWeights t s s.entries.length)
  have hall : t.id.ids.take s.entries.length = t.id.ids :=
    List.take_of_length_le (Nat.le_of_eq h.size)
  have hread := fun c hc => hinv c { z with
    journal := z.journal ++ remainingWeights t s s.entries.length } (.inl hc)
  unfold WeightedDns.settle Lifecycle.weighPending
  rw [h.weightingChange_eq valid, Dialogue.ensures_bind, hall, h.resourceId_eq valid]
  split
  · rename_i hequal
    have hremaining : remaining t s = remainingWeights t s s.entries.length := by
      rw [remaining, h.weightingChange_eq valid, if_pos hequal]
      exact List.append_nil _
    refine hnoted.readBack calm hnoted.tracks.tidy rfl rfl hread ?_
    intro t' ht'
    refine hpost t' _ (by rw [hremaining]) ?_
    intro hnil
    rw [← hremaining, hnil]
    exact ⟨ht' rfl, by rw [List.append_nil]⟩
  · rename_i hdiffer
    have hremaining : remaining t s = remainingWeights t s s.entries.length ++
        [.setWeighting ⟨s.domain, s.host, some s.type, some s.line, s.weighting.isOn⟩] := by
      rw [remaining, h.weightingChange_eq valid, if_neg hdiffer]
      rfl
    have hne : remaining t s ≠ [] := by
      rw [hremaining]
      simp
    refine ensures_setWeighting (.inl calm) (fun c => hinv c _ (.inr hne)) ?_
    rintro c rfl
    refine ⟨fun c' => hinv c' _ (.inr hne), ?_⟩
    have tidy' : ∀ calls position, (({ z with journal := z.journal ++ calls }.switched (setName s)
        position).note (.setWeighting ⟨s.domain, s.host, some s.type, some s.line,
          s.weighting.isOn⟩)).Tidy := fun _ _ =>
      ⟨h.tracks.tidy.ids_nodup, h.tracks.tidy.ids_numbered⟩
    refine hnoted.readBack calm (tidy' _ _) rfl rfl (fun c hc => hinv c _ (.inl hc)) ?_
    intro t' _
    refine hpost t' _ ?_ fun hnil => absurd hnil hne
    rw [hremaining, ← List.append_assoc]
    rfl

end

/-- Weights are set at once, as a set with weighting has its switch on. -/
theorem weightingChange_ne_enabled (h : Standing z s t) (valid : s.Admissible)
    (hopen : s.weighting.isOn = true → z.isOpen (setName s) = true) :
    Plan.weightingChange t.config s ≠ some .enabled := by
  rw [h.weightingChange_eq valid]
  intro hplanned
  split at hplanned
  · cases hplanned
  · rename_i hdiffer
    rw [Option.some.inj hplanned] at hdiffer hopen
    exact hdiffer (hopen rfl)

/-- An update to the configuration that a set has makes the remaining calls and writes nothing
else. -/
theorem ensures_update (h : Standing z s t) (calm : z.failures = []) (valid : s.fault? = none)
    (hopen : s.weighting.isOn = true → z.isOpen (setName s) = true)
    {inv : Call → Zone → Prop} {post : TrackedSet → Zone → Prop}
    (hinv : ∀ c z', c.writes = false ∨ remaining t s ≠ [] → inv c z')
    (hpost : ∀ t' z', z'.journal = z.journal ++ remaining t s →
      (remaining t s = [] → t' = t ∧ z' = z) → post t' z') :
    (update t s).Ensures remote inv post (fun _ _ => False) z := by
  have admissible := RecordSet.fault?_eq_none_iff.mp valid
  have hlength : (t.config.entries.zip t.id.ids).length = s.entries.length := by
    rw [List.length_zip, ← h.tracks.size, Nat.min_self, h.size]
  have hnow := beq_eq_false_iff_ne.mpr (h.weightingChange_ne_enabled admissible hopen)
  -- after `n` entries the IDs are the same, and the zone has noted the weights so far
  refine WeightedDns.ensures_update (fun p z' => p = ⟨t.id.ids, [], none⟩ ∧
    z' = { z with journal := z.journal ++ remainingWeights t s s.entries.length }) ?_ ?_ ?_ ?_
  · rintro (hfault | hother | hsize)
    · exact absurd valid hfault
    · exact absurd h.tracks.domain_eq hother
    · exact absurd h.tracks.size hsize
  · intro _ _ _
    rw [hnow]
    refine ensures_actionsFrom (R := fun n p z' => p = ⟨t.id.ids, [], none⟩ ∧
      z' = { z with journal := z.journal ++ remainingWeights t s n }) ?_ ?_ ?_
      ⟨rfl, by rw [remainingWeights_zero, List.append_nil]⟩
    · rintro i b id e _ _ hb he ⟨rfl, rfl⟩
      refine ((h.noted _).reconcile calm admissible hopen hb he _ ?_).weaken ?_
      · intro c z' hc
        refine hinv c z' (hc.imp_right ?_)
        intro hplanned hnil
        exact hplanned ((remaining_eq_nil_iff.mp hnil).1 i b e id hb he)
      · rintro _ _ ⟨rfl, rfl⟩
        rw [remainingWeights_succ hb he, ← List.append_assoc]
        exact ⟨rfl, rfl⟩
    · rintro _ _ - ⟨rfl, rfl⟩
      rw [hlength, List.drop_length, Plan.createsFrom]
      exact ⟨rfl, rfl⟩
    · rintro _ _ - ⟨rfl, rfl⟩
      rw [← hlength, List.drop_length, Plan.actionsFrom, Plan.createsFrom, hlength]
      exact ⟨rfl, rfl⟩
  · rintro _ _ ⟨rfl, rfl⟩
    exact h.settle calm admissible rfl hinv hpost
  · rintro - hnone ⟨-, hdone⟩
    have hnil : remainingWeights t s s.entries.length = [] := by
      simpa using congrArg journal hdone
    have hremaining : remaining t s = [] := by
      rw [remaining, hnil, hnone]
      rfl
    refine h.readBack calm h.tracks.tidy rfl rfl (fun c hc => hinv c z (.inl hc)) ?_
    intro t' ht'
    refine hpost t' z ?_ fun _ => ⟨ht' rfl, rfl⟩
    rw [hremaining, List.append_nil]

end Standing

end Zone

end WeightedDns
