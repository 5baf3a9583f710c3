import WeightedDns.Proofs.Update.Add

/-!
# The outcome of an update

Where the tracked set has just been read, `ensures_update_tracked` says which zones an update
passes through (`Passes`) and what it leaves when it succeeds (`Covered`): every entry has its own
record, the kept ones have been seen to, and the others fit.
-/

namespace WeightedDns

open Lifecycle

namespace Zone

/-! ## Entries that are dropped -/

/-- Some of the records with the IDs `gone` have been deleted since the zone was `zb`. -/
structure Shrunk (zb : Zone) (gone : List String) (z : Zone) : Prop where
  tidy : z.Tidy
  length : z.records.length ≤ zb.records.length
  others : ∀ id, id ∉ gone → z.record? id = zb.record? id
  gone : ∀ id ∈ gone, z.record? id = none ∨ z.record? id = zb.record? id
  weighting : z.weighting = zb.weighting
  failures : z.failures = zb.failures

section

variable {zb z : Zone} {gone : List String} {inv : Call → Zone → Prop}
  {err : LifecycleError → Zone → Prop}

theorem Shrunk.refl (tidy : zb.Tidy) (gone : List String) : Shrunk zb gone zb :=
  ⟨tidy, Nat.le_refl _, fun _ _ => rfl, fun _ _ => .inr rfl, rfl, rfl⟩

theorem Shrunk.remove (h : Shrunk zb gone z) {id : String} (hid : id ∈ gone) (c : Call) :
    Shrunk zb gone ((z.remove id).note c) := by
  refine ⟨(h.tidy.remove id).note c, ?_, ?_, ?_, h.weighting, h.failures⟩
  · exact Nat.le_trans (List.length_filter_le _ _) h.length
  · intro id' hid'
    have hne : id' ≠ id := fun heq => hid' (heq ▸ hid)
    rw [note_record?, record?_remove, if_neg hne]
    exact h.others id' hid'
  · intro id' hid'
    rw [note_record?, record?_remove]
    split
    · exact .inl rfl
    · exact h.gone id' hid'

theorem Shrunk.deleteOne (h : Shrunk zb gone z) {id : String} (hid : id ∈ gone)
    (sure : zb.failures = [] ∨ ∀ e z', err e z') (hinv : ∀ c z', Shrunk zb gone z' → inv c z') :
    (deleteOne id).Ensures remote inv (fun _ => Shrunk zb gone) err z := by
  refine ensures_deleteOne (by rw [h.failures]; exact sure) (fun c => hinv c z h) (fun _ => h) ?_
  intro _ _ _
  have hremoved := h.remove hid (.deleteRecord id)
  exact ⟨fun c => hinv c _ hremoved, hremoved⟩

end

/-! ## Zones on the way -/

/-- The zones that an update of a set passes through. -/
inductive Passes (z₀ : Zone) (records : List StoredRecord) (old new : RecordSet) : Zone → Prop where
  | stage {n : Nat} {z : Zone} (hn : n ≤ records.length) (hn' : n ≤ new.entries.length)
      (h : Stage z₀ records old new n z) : Passes z₀ records old new z
  | grown {zb z : Zone} {placed : List (Entry × String)}
      (hlength : records.length ≤ new.entries.length)
      (hb : Stage z₀ records old new records.length zb)
      (hplaced : placed.map (·.1) <+: new.entries.drop records.length)
      (h : Grown zb new placed z) : Passes z₀ records old new z
  | shrunk {zb z : Zone} (hlength : new.entries.length ≤ records.length)
      (hb : Stage z₀ records old new new.entries.length zb)
      (h : Shrunk zb ((records.drop new.entries.length).map (·.id)) z) :
      Passes z₀ records old new z
  /-- Weights, remarks, status and switches do not matter. -/
  | touched {z z' : Zone} (h : Passes z₀ records old new z) (tidy : z'.Tidy)
      (hcores : z'.cores = z.cores) : Passes z₀ records old new z'

/-! ## Zones at the end -/

/-- Every entry has its own record, up to weights that wait. -/
structure Covered (z₀ : Zone) (records : List StoredRecord) (old new : RecordSet)
    (ids : List String) (pending : List (String × UInt32)) (z : Zone) : Prop where
  tidy : z.Tidy
  length : z.records.length ≤ z₀.records.length + new.entries.length
  size : new.entries.length ≤ ids.length
  nodup : (ids.take new.entries.length).Nodup
  kept : ∀ (i : Nat) (r : StoredRecord) (e : Entry), records[i]? = some r →
    new.entries[i]? = some e → ids[i]? = some r.id ∧ ∃ r', z.record? r.id = some r' ∧
      r'.core = (r.reconciled old new e).core ∧ Adorned new pending e r'
  made : ∀ (i : Nat) (e : Entry), records.length ≤ i → new.entries[i]? = some e →
    ∃ id r', ids[i]? = some id ∧ z.record? id = some r' ∧ r'.Fits new e ∧
      Adorned new pending e r'
  failures : z.failures = z₀.failures

section

variable {z₀ zb z : Zone} {domain : String} {records : List StoredRecord} {t : TrackedSet}
  {new : RecordSet} {deferred : Bool} {p₀ p : Progress} {placed : List (Entry × String)}
  {inv : Call → Zone → Prop} {err : LifecycleError → Zone → Prop}

theorem Kept.length_ids {n : Nat} {old : RecordSet}
    (h : Kept z₀ records old new deferred n p z) : p.ids.length = records.length := by
  rw [h.ids, List.length_map]

/-- A record that has been seen to is there with the value of its entry. -/
theorem Stage.exists_done {n i : Nat} {old : RecordSet} {r : StoredRecord} {e : Entry}
    (h : Stage z₀ records old new n z) (hi : i < n) (hr : records[i]? = some r)
    (he : new.entries[i]? = some e) :
    ∃ r', z.record? r.id = some r' ∧ r'.core = (r.reconciled old new e).core := by
  have hdone := h.done i r e hi hr he
  rw [Option.map_eq_some_iff] at hdone
  exact hdone

/-- A record of the zone has been seen to, is still to be seen to, or is not tracked. -/
theorem Stage.record_cases {n : Nat} {old : RecordSet} {r : StoredRecord}
    (h : Stage z₀ records old new n z) (hn : n ≤ new.entries.length) (hr : r ∈ z.records) :
    (∃ i s e, i < n ∧ records[i]? = some s ∧ s.id = r.id ∧ new.entries[i]? = some e ∧
      r.core = (s.reconciled old new e).core) ∨
    (∃ i, n ≤ i ∧ records[i]? = some r) ∨ (r.id ∉ records.map (·.id) ∧ r ∈ z₀.records) := by
  have hfound := h.tidy.record?_of_mem hr
  by_cases hid : r.id ∈ records.map (·.id)
  · obtain ⟨s, hs, hsame⟩ := List.mem_map.mp hid
    obtain ⟨i, hi⟩ := List.mem_iff_getElem?.mp hs
    rw [← hsame] at hfound
    rcases Nat.lt_or_ge i n with hlt | hge
    · have he := List.getElem?_eq_getElem (Nat.lt_of_lt_of_le hlt hn)
      obtain ⟨r', hr', hcore⟩ := h.exists_done hlt hi he
      obtain rfl : r = r' := Option.some.inj (hfound.symm.trans hr')
      exact .inl ⟨i, s, _, hlt, hi, hsame, he, hcore⟩
    · have htodo := h.todo i s hge hi
      obtain rfl : r = s := Option.some.inj (hfound.symm.trans htodo)
      exact .inr (.inl ⟨i, hge, hi⟩)
  · rw [h.others r.id hid] at hfound
    exact .inr (.inr ⟨hid, mem_of_record? hfound⟩)

/-- A new entry never gets a record that is tracked. -/
theorem Grown.notMem_records {old : RecordSet} (h : Grown zb new placed z)
    (hb : Stage z₀ records old new records.length zb)
    (hplaced : placed.map (·.1) <+: new.entries.drop records.length) (valid : new.Admissible)
    (hlength : records.length ≤ new.entries.length) {q : Entry × String} (hq : q ∈ placed) :
    q.2 ∉ records.map (·.id) := by
  intro hmem
  obtain ⟨r, hr, hid⟩ := List.mem_map.mp hmem
  obtain ⟨i, hi⟩ := List.mem_iff_getElem?.mp hr
  obtain ⟨j, hj⟩ := List.mem_iff_getElem?.mp hq
  have hlt := (List.getElem?_eq_some_iff.mp hi).1
  have he := List.getElem?_eq_getElem (Nat.lt_of_lt_of_le hlt hlength)
  obtain ⟨r', hr', hcore⟩ := hb.exists_done hlt hi he
  rw [hid] at hr'
  -- the record would have the values of two entries: one that it was seen to for, one it was
  -- listed with
  have hvalue : r'.value = (new.entries[i]).value :=
    (StoredRecord.value_ttl_of_reconciled hcore).1
  have horigin := (h.origin q hq r' hr').2
  have hindex := valid.index_eq he (getElem?_of_placed hplaced hj) (hvalue.symm.trans horigin)
  omega

theorem Creating.entries_drop (h : Creating zb p₀ new deferred placed p z)
    (hb : Kept z₀ records t.config new deferred records.length p₀ zb) :
    placed.map (·.1) <+: new.entries.drop records.length := by
  have hentries := h.entries
  rw [hb.length_ids] at hentries
  exact hentries

/-- All entries that only the desired set has have got their records. -/
theorem Creating.covered (h : Creating zb p₀ new deferred placed p z)
    (tracks : Tracks z₀ domain records t)
    (hb : Kept z₀ records t.config new deferred records.length p₀ zb) (valid : new.Admissible)
    (hlength : records.length ≤ new.entries.length)
    (hall : p.ids.length = new.entries.length) :
    Covered z₀ records t.config new p.ids p.pending z := by
  have hfresh : ∀ q ∈ placed, q.2 ∉ records.map (·.id) := fun q hq =>
    h.toGrown.notMem_records hb.toStage (h.entries_drop hb) valid hlength hq
  have hsize := h.length_ids
  rw [hb.length_ids, hall] at hsize
  refine ⟨h.tidy, ?_, Nat.le_of_eq hall.symm, ?_, ?_, ?_, h.failures.trans hb.failures⟩
  · have hgrown := h.length
    rw [hb.length] at hgrown
    omega
  · rw [← hall, List.take_length, h.ids, hb.ids, List.nodup_append]
    refine ⟨tracks.nodup, h.nodup, ?_⟩
    rintro id hid id' hid' rfl
    obtain ⟨q, hq, rfl⟩ := List.mem_map.mp hid'
    exact hfresh q hq hid
  · intro i r e hr he
    have hlt := (List.getElem?_eq_some_iff.mp hr).1
    obtain ⟨r₁, hr₁, hcore⟩ := hb.toStage.exists_done hlt hr he
    obtain ⟨r₂, hr₂, hadorned⟩ := hb.adorned i r e hlt hr he
    obtain rfl : r₁ = r₂ := Option.some.inj (hr₁.symm.trans hr₂)
    have hnot : r.id ∉ placed.map (·.2) := by
      intro hmem
      obtain ⟨q, hq, hid⟩ := List.mem_map.mp hmem
      exact hfresh q hq (hid ▸ List.mem_map_of_mem (List.mem_of_getElem? hr))
    refine ⟨?_, r₁, ?_, hcore, hadorned.mono h.pending⟩
    · rw [h.ids, hb.ids, List.getElem?_append_left (by simpa using hlt), List.getElem?_map, hr]
      rfl
    · rw [h.others r.id hnot, hr₁]
  · intro i e hi he
    have hlt := (List.getElem?_eq_some_iff.mp he).1
    have hplaced : i - records.length < placed.length := by omega
    have hq := List.getElem?_eq_getElem hplaced
    have hmem := List.getElem_mem hplaced
    have hentry := getElem?_of_placed h.entries hq
    rw [hb.length_ids, Nat.add_sub_cancel' hi] at hentry
    obtain rfl := Option.some.inj (he.symm.trans hentry)
    obtain ⟨r, hr, hfits⟩ := h.made _ hmem
    obtain ⟨r', hr', hadorned⟩ := h.adorned _ hmem
    obtain rfl : r = r' := Option.some.inj (hr.symm.trans hr')
    refine ⟨_, r, ?_, hr, hfits, hadorned⟩
    rw [h.ids, hb.ids, List.getElem?_append_right (by simpa using hi), List.length_map,
      List.getElem?_map, hq]
    rfl

/-- A record of an entry that stays is not among those that are deleted. -/
theorem Tracks.notMem_drop {i n : Nat} {r : StoredRecord} (tracks : Tracks z₀ domain records t)
    (hr : records[i]? = some r) (hi : i < n) : r.id ∉ (records.drop n).map (·.id) := by
  intro hmem
  obtain ⟨s, hs, hid⟩ := List.mem_map.mp hmem
  obtain ⟨j, hj⟩ := List.mem_iff_getElem?.mp hs
  rw [List.getElem?_drop] at hj
  have := tracks.index_eq hj hr hid
  omega

/-- All records of entries that are dropped have been deleted. -/
theorem Shrunk.covered (h : Shrunk zb ((records.drop new.entries.length).map (·.id)) z)
    (tracks : Tracks z₀ domain records t)
    (hb : Kept z₀ records t.config new deferred new.entries.length p zb)
    (hlength : new.entries.length ≤ records.length) :
    Covered z₀ records t.config new p.ids p.pending z := by
  refine ⟨h.tidy, ?_, ?_, ?_, ?_, ?_, h.failures.trans hb.failures⟩
  · have hshrunk := h.length
    rw [hb.length] at hshrunk
    omega
  · rw [hb.length_ids]
    exact hlength
  · rw [hb.ids]
    exact (List.take_sublist _ _).nodup tracks.nodup
  · intro i r e hr he
    have hlt := (List.getElem?_eq_some_iff.mp he).1
    obtain ⟨r₁, hr₁, hcore⟩ := hb.toStage.exists_done hlt hr he
    obtain ⟨r₂, hr₂, hadorned⟩ := hb.adorned i r e hlt hr he
    obtain rfl : r₁ = r₂ := Option.some.inj (hr₁.symm.trans hr₂)
    have hnot := tracks.notMem_drop hr hlt
    refine ⟨?_, r₁, ?_, hcore, hadorned⟩
    · rw [hb.ids, List.getElem?_map, hr]
      rfl
    · rw [h.others r.id hnot, hr₁]
  · intro i e hi he
    have hlt := (List.getElem?_eq_some_iff.mp he).1
    omega

/-! ## Settling -/

section

variable {old : RecordSet} {ids : List String} {pending : List (String × UInt32)}

namespace Covered

theorem exists_record (h : Covered z₀ records old new ids pending z) {i : Nat} {e : Entry}
    (he : new.entries[i]? = some e) : ∃ id r, ids[i]? = some id ∧ z.record? id = some r := by
  rcases Nat.lt_or_ge i records.length with hi | hi
  · have hr := List.getElem?_eq_getElem hi
    obtain ⟨hid, r', hr', -⟩ := h.kept i _ e hr he
    exact ⟨_, r', hid, hr'⟩
  · obtain ⟨id, r', hid, hr', -⟩ := h.made i e hi he
    exact ⟨id, r', hid, hr'⟩

theorem index_eq (h : Covered z₀ records old new ids pending z) {i j : Nat} {id : String}
    (hi : i < new.entries.length) (hj : j < new.entries.length) (hid : ids[i]? = some id)
    (hid' : ids[j]? = some id) : i = j := by
  have hlength : i < (ids.take new.entries.length).length := by
    have := h.size
    rw [List.length_take]
    omega
  refine (List.getElem?_inj hlength h.nodup).mp ?_
  rw [List.getElem?_take_of_lt hi, List.getElem?_take_of_lt hj, hid, hid']

/-- Only the IDs of entries matter. -/
theorem take (h : Covered z₀ records old new ids pending z) :
    Covered z₀ records old new (ids.take new.entries.length) pending z where
  tidy := h.tidy
  length := h.length
  size := by
    rw [List.length_take]
    exact Nat.le_min.mpr ⟨Nat.le_refl _, h.size⟩
  nodup := by
    rw [List.take_take, Nat.min_self]
    exact h.nodup
  kept i r e hr he := by
    rw [List.getElem?_take_of_lt (List.getElem?_eq_some_iff.mp he).1]
    exact h.kept i r e hr he
  made i e hi he := by
    rw [List.getElem?_take_of_lt (List.getElem?_eq_some_iff.mp he).1]
    exact h.made i e hi he
  failures := h.failures

theorem isSome_of_mem (h : Covered z₀ records old new ids pending z) :
    ∀ id ∈ ids.take new.entries.length, (z.record? id).isSome := by
  intro id hid
  obtain ⟨i, hi⟩ := List.mem_iff_getElem?.mp hid
  have hlt : i < new.entries.length := by
    have := (List.getElem?_eq_some_iff.mp hi).1
    rw [List.length_take] at this
    omega
  rw [List.getElem?_take_of_lt hlt] at hi
  obtain ⟨id', r, hid', hr⟩ := h.exists_record (List.getElem?_eq_getElem hlt)
  obtain rfl := Option.some.inj (hi.symm.trans hid')
  rw [hr]
  rfl

/-- A weight that waits has been set. -/
theorem weigh {id : String} {w : UInt32}
    (h : Covered z₀ records old new ids ((id, w) :: pending) z) {i : Nat} {e : Entry}
    (hid : ids[i]? = some id) (he : new.entries[i]? = some e) (hw : w = e.weight)
    {f : StoredRecord → StoredRecord} (hf : f = fun r => { r with weight := some w }) (c : Call) :
    Covered z₀ records old new ids pending ((z.edit id f).note c) := by
  have keeps : ∀ r, (f r).id = r.id := by
    intro r
    rw [hf]
  -- what the change leaves of the record of any entry
  have hone : ∀ (j : Nat) (a : Entry) (id' : String) (r : StoredRecord), ids[j]? = some id' →
      new.entries[j]? = some a → z.record? id' = some r →
      Adorned new ((id, w) :: pending) a r →
      ∃ r', ((z.edit id f).note c).record? id' = some r' ∧ r'.core = r.core ∧
        Adorned new pending a r' := by
    intro j a id' r hj ha hr hadorned
    by_cases hsame : id' = id
    · subst hsame
      have hindex := h.index_eq (List.getElem?_eq_some_iff.mp he).1
        (List.getElem?_eq_some_iff.mp ha).1 hid hj
      subst hindex
      obtain rfl : e = a := Option.some.inj (he.symm.trans ha)
      refine ⟨f r, record?_note_edit hr keeps c, by rw [hf]; rfl, ?_⟩
      rw [hf, hw]
      exact ⟨fun _ _ => .inl rfl, hadorned.remark, hadorned.status⟩
    · refine ⟨r, ?_, rfl, ?_, hadorned.remark, hadorned.status⟩
      · rw [note_record?, record?_edit z keeps, if_neg hsame, hr]
      · intro hon hweight
        refine (hadorned.weight hon hweight).imp (fun h => h) ?_
        intro hmem
        rcases List.mem_cons.mp hmem with heq | hmem
        · have hid' : r.id = id := congrArg (·.1) heq
          rw [id_of_record? hr] at hid'
          exact absurd hid' hsame
        · exact hmem
  refine ⟨(h.tidy.edit keeps).note c, ?_, h.size, h.nodup, ?_, ?_, h.failures⟩
  · have := h.length
    simpa [edit] using this
  · intro j r a hr ha
    obtain ⟨hj, r₁, hr₁, hcore, hadorned⟩ := h.kept j r a hr ha
    obtain ⟨r₂, hr₂, hcore₂, hadorned₂⟩ := hone j a r.id r₁ hj ha hr₁ hadorned
    exact ⟨hj, r₂, hr₂, hcore₂.trans hcore, hadorned₂⟩
  · intro j a hj ha
    obtain ⟨id', r₁, hid', hr₁, hfits, hadorned⟩ := h.made j a hj ha
    obtain ⟨r₂, hr₂, hcore₂, hadorned₂⟩ := hone j a id' r₁ hid' ha hr₁ hadorned
    exact ⟨id', r₂, hid', hr₂, hfits.of_core_eq hcore₂, hadorned₂⟩

/-- The weights that wait are set one after the other. -/
theorem weighPending (h : Covered z₀ records old new ids pending z)
    (waits : Waits new deferred ids pending) (sure : z₀.failures = [] ∨ ∀ e z', err e z')
    (hinv : ∀ c z', z'.Tidy → z'.cores = z.cores → inv c z')
    (hclosed : ∀ (id : String) (r : StoredRecord), id ∈ ids.take new.entries.length →
      z.record? id = some r → z.isOpen (fullName r.host r.domain) = false → pending ≠ [] →
      ∀ e z', err e z') :
    (weighPending pending).Ensures remote inv
      (fun _ z' => Covered z₀ records old new ids [] z' ∧ z'.cores = z.cores ∧
        z'.weighting = z.weighting) err z := by
  -- by induction on the weights; what waits shrinks while the cores stay
  induction pending generalizing z with
  | nil => exact ⟨h, rfl, rfl⟩
  | cons q rest ih =>
    obtain ⟨id, w⟩ := q
    obtain ⟨-, i, e, hid, he, hw⟩ := waits (id, w) List.mem_cons_self
    have hlt := (List.getElem?_eq_some_iff.mp he).1
    have hmem : id ∈ ids.take new.entries.length := by
      refine List.mem_of_getElem? (i := i) ?_
      rw [List.getElem?_take_of_lt hlt]
      exact hid
    rw [Lifecycle.weighPending, Dialogue.ensures_bind]
    refine ensures_setWeight h.tidy (by rw [h.failures]; exact sure)
      (fun c => hinv c z h.tidy rfl) ?_ ?_ ?_
    · intro hnone
      have hsome := h.isSome_of_mem id hmem
      rw [hnone] at hsome
      cases hsome
    · intro r hr hopen e'
      exact hclosed id r hmem hr hopen (List.cons_ne_nil _ _) e' z
    · intro r hr f hf
      have ht := touched_edit h.tidy id (f := f) (fun r => by rw [hf]; rfl)
        (c := .setWeight id w) rfl
      have hnext := h.weigh hid he hw hf (.setWeight id w)
      refine ⟨fun c => hinv c _ ht.tidy ht.cores, ?_⟩
      refine (ih hnext (fun q hq => waits q (List.mem_cons_of_mem _ hq)) ?_ ?_).weaken ?_
      · intro c z' htidy hcores
        exact hinv c z' htidy (hcores.trans ht.cores)
      · intro id' r' hid' hr' hopen hne
        -- the record has the core that it had, and switches have not moved
        have hcore := core_of_cores ht.cores id'
        rw [hr', Option.map_some] at hcore
        obtain ⟨s, hs, hsame⟩ := Option.map_eq_some_iff.mp hcore.symm
        have hhost : s.host = r'.host := congrArg (·.host) hsame
        have hdomain : s.domain = r'.domain := congrArg (·.domain) hsame
        refine hclosed id' s hid' hs ?_ (List.cons_ne_nil _ _)
        rw [hhost, hdomain]
        exact hopen
      · rintro _ z' ⟨hcovered, hcores, hweighting⟩
        exact ⟨hcovered, hcores.trans ht.cores, hweighting⟩

/-- Where kept records come to the name of the set, all records of entries are there. -/
theorem name_eq (h : Covered z₀ records old new ids pending z)
    (named : ∀ (i : Nat) (r : StoredRecord) (e : Entry), records[i]? = some r →
      new.entries[i]? = some e → fullName (r.reconciled old new e).host r.domain = setName new)
    {id : String} {r : StoredRecord} (hid : id ∈ ids.take new.entries.length)
    (hr : z.record? id = some r) : fullName r.host r.domain = setName new := by
  obtain ⟨i, hi⟩ := List.mem_iff_getElem?.mp hid
  have hlt : i < new.entries.length := by
    have := (List.getElem?_eq_some_iff.mp hi).1
    rw [List.length_take] at this
    omega
  rw [List.getElem?_take_of_lt hlt] at hi
  have he := List.getElem?_eq_getElem hlt
  rcases Nat.lt_or_ge i records.length with hi' | hi'
  · have hs := List.getElem?_eq_getElem hi'
    obtain ⟨hid', r', hr', hcore, -⟩ := h.kept i _ _ hs he
    obtain rfl := Option.some.inj (hi.symm.trans hid')
    obtain rfl : r = r' := Option.some.inj (hr.symm.trans hr')
    have hhost : r.host = ((records[i]).reconciled old new new.entries[i]).host :=
      congrArg (·.host) hcore
    have hdomain : r.domain = ((records[i]).reconciled old new new.entries[i]).domain :=
      congrArg (·.domain) hcore
    rw [hhost, hdomain, StoredRecord.reconciled_domain]
    exact named i _ _ hs he
  · obtain ⟨id', r', hid', hr', hfits, -⟩ := h.made i _ hi' he
    obtain rfl := Option.some.inj (hi.symm.trans hid')
    obtain rfl : r = r' := Option.some.inj (hr.symm.trans hr')
    rw [hfits.host, hfits.domain, setName]

end Covered

theorem Covered.length_take (h : Covered z₀ records old new ids pending z) :
    (ids.take new.entries.length).length = new.entries.length := by
  rw [List.length_take]
  exact Nat.min_eq_left h.size

/-- The IDs of the entries make a resource ID. -/
theorem Covered.resourceId_eq (h : Covered z₀ records old new ids pending z)
    (valid : new.Admissible) :
    resourceId (ids.take new.entries.length) = .done ⟨ids.take new.entries.length⟩ :=
  h.tidy.resourceId_eq (valid.ne_nil h.length_take) h.isSome_of_mem

/-- What an update that has succeeded leaves and returns. -/
structure Updated (z₀ : Zone) (records : List StoredRecord) (old new : RecordSet)
    (t : TrackedSet) (z : Zone) : Prop where
  covered : Covered z₀ records old new t.id.ids [] z
  tracks : Tracks z new.domain (z.fetched t.id.ids) t
  size : t.id.ids.length = new.entries.length
  switched : z.isOpen (setName new) =
    ((Plan.weightingChange old new).map (·.isOn)).getD (z₀.isOpen (setName new))

section

variable {post : TrackedSet → Zone → Prop} (valid : new.Admissible)
  (sure : z₀.failures = [] ∨ ∀ e z', err e z')
  (hinv : ∀ c z', z'.Tidy → z'.cores = z.cores → inv c z')
  (hpost : ∀ t z', Updated z₀ records old new t z' → post t z')
include valid sure hinv hpost

/-- The set is read back with all its records. -/
theorem Covered.readBack {z' : Zone} (h : Covered z₀ records old new ids [] z')
    (hcores : z'.cores = z.cores)
    (hopen : z'.isOpen (setName new) =
      ((Plan.weightingChange old new).map (·.isOn)).getD (z₀.isOpen (setName new))) :
    (readBack ⟨ids.take new.entries.length⟩ new).Ensures remote inv post err z' := by
  refine ensures_readBack_whole h.tidy (by rw [h.failures]; exact sure)
    (fun c _ => hinv c z' h.tidy hcores) h.length_take (valid.ne_nil h.length_take) h.isSome_of_mem
    h.nodup ?_
  intro t hids htracks
  refine hpost t z' ⟨?_, ?_, ?_, hopen⟩
  · rw [hids]
    exact h.take
  · rw [hids]
    exact htracks
  · rw [hids, h.length_take]

/-- What follows the actions of an update. -/
theorem Covered.settle (h : Covered z₀ records old new p.ids p.pending z)
    (waits : Waits new (Plan.weightingChange old new == some .enabled) p.ids p.pending)
    (hweighting : z.weighting = z₀.weighting)
    (named : (∀ (i : Nat) (r : StoredRecord) (e : Entry), records[i]? = some r →
      new.entries[i]? = some e → fullName (r.reconciled old new e).host r.domain = setName new) ∨
      ∀ e z', err e z') :
    (settle new (Plan.weightingChange old new) p).Ensures remote inv post err z := by
  -- the weights that wait, in a zone with the switch in its place
  have hrest : ∀ z₁, Covered z₀ records old new p.ids p.pending z₁ → z₁.cores = z.cores →
      z₁.isOpen (setName new) =
        ((Plan.weightingChange old new).map (·.isOn)).getD (z₀.isOpen (setName new)) →
      (Lifecycle.weighPending p.pending >>= fun _ => do
        let id ← resourceId (p.ids.take new.entries.length)
        Lifecycle.readBack id new).Ensures remote inv post err z₁ := by
    intro z₁ h₁ hcores hopen
    rw [Dialogue.ensures_bind]
    refine (h₁.weighPending waits sure ?_ ?_).weaken ?_
    · intro c z' htidy hcores'
      exact hinv c z' htidy (hcores'.trans hcores)
    · intro id r hid hr hclosed hne
      rcases named with hnamed | hany
      · -- weights wait only where weighting is to be switched on, and now it is on
        obtain ⟨q, rest, hpending⟩ := List.exists_cons_of_ne_nil hne
        have hdeferred := (waits q (by rw [hpending]; exact List.mem_cons_self)).1
        rw [beq_iff_eq] at hdeferred
        rw [h₁.name_eq hnamed hid hr, hopen, hdeferred] at hclosed
        cases hclosed
      · exact hany
    · rintro _ z' ⟨hcovered, hcores', hweighting'⟩
      rw [hcovered.resourceId_eq valid, Dialogue.done_bind]
      refine hcovered.readBack valid sure hinv hpost (hcores'.trans hcores) ?_
      rw [isOpen_congr hweighting', hopen]
  unfold WeightedDns.settle
  rw [Dialogue.ensures_bind]
  refine ensures_whenSome ?_ ?_
  · intro hnone
    refine hrest z h rfl ?_
    rw [hnone, isOpen_congr hweighting]
    rfl
  · intro position hsome
    refine ensures_setWeighting (by rw [h.failures]; exact sure) (fun c => hinv c z h.tidy rfl) ?_
    intro c _
    have htidy : ((z.switched (setName new) position.isOn).note c).Tidy :=
      ⟨h.tidy.ids_nodup, h.tidy.ids_numbered⟩
    refine ⟨fun c' => hinv c' _ htidy rfl, hrest _ ?_ rfl ?_⟩
    · exact ⟨htidy, h.length, h.size, h.nodup, h.kept, h.made, h.failures⟩
    · rw [hsome]
      exact (z.isOpen_switched _ _ _).trans (if_pos rfl)

end

end

/-! ## A whole update -/

/-- No call can fail in an update of the records: nothing has been made to fail, their names are
that of the set and open where weights are set at once, and the listing is complete. -/
structure Smooth (z₀ : Zone) (records : List StoredRecord) (old new : RecordSet) : Prop where
  calm : z₀.failures = []
  named : ∀ (i : Nat) (r : StoredRecord) (e : Entry), records[i]? = some r →
    new.entries[i]? = some e → fullName (r.reconciled old new e).host r.domain = setName new
  opened : Plan.weightingChange old new ≠ some .enabled → new.weighting.isOn = true →
    z₀.isOpen (setName new) = true
  domain : ∀ r ∈ z₀.records, r.domain = new.domain
  reach : z₀.records.length ≤ walkReach

theorem Stage.domain_eq {old : RecordSet} {n : Nat} (h : Stage z₀ records old new n z)
    (hn : n ≤ new.entries.length) (hmem : ∀ r ∈ records, r ∈ z₀.records)
    (hdomain : ∀ r ∈ z₀.records, r.domain = new.domain) :
    ∀ r ∈ z.records, r.domain = new.domain := by
  intro r hr
  rcases h.record_cases hn hr with ⟨i, s, e, -, hs, -, -, hcore⟩ | ⟨i, -, hi⟩ | ⟨-, hold⟩
  · have heq : r.domain = (s.reconciled old new e).domain := congrArg (·.domain) hcore
    rw [heq, StoredRecord.reconciled_domain]
    exact hdomain s (hmem s (List.mem_of_getElem? hs))
  · exact hdomain r (hmem r (List.mem_of_getElem? hi))
  · exact hdomain r hold

/-- What the actions of an update leave to its end. -/
structure Acted (z₀ : Zone) (records : List StoredRecord) (old new : RecordSet) (p : Progress)
    (z : Zone) : Prop where
  covered : Covered z₀ records old new p.ids p.pending z
  waits : Waits new (Plan.weightingChange old new == some .enabled) p.ids p.pending
  weighting : z.weighting = z₀.weighting
  passes : Passes z₀ records old new z

section

variable (tracks : Tracks z₀ domain records t) (valid : new.Admissible)
  (smooth : Smooth z₀ records t.config new ∨ ∀ e z', err e z')
  (hinv : ∀ c z, Passes z₀ records t.config new z → inv c z)
include tracks valid smooth hinv

/-- The entries that only the desired set has get their records. -/
theorem ensures_creates_tracked {p₀ : Progress} (hlength : records.length ≤ new.entries.length)
    (hb : Kept z₀ records t.config new (Plan.weightingChange t.config new == some .enabled)
      records.length p₀ zb) :
    (runActions new (Plan.weightingChange t.config new == some .enabled) p₀
      (Plan.createsFrom records.length (new.entries.drop records.length))).Ensures remote inv
      (Acted z₀ records t.config new) err zb := by
  rw [← hb.length_ids]
  refine (ensures_creating hb.tidy valid hb.known hb.waits (by rw [hb.length_ids]; exact hlength)
    ?_ ?_ ?_ ?_).weaken ?_
  · rw [hb.failures]
    exact smooth.imp (fun h => h.calm) fun h => h
  · intro c placed' z' hplaced hgrown
    rw [hb.length_ids] at hplaced
    exact hinv c z' (.grown hlength hb.toStage hplaced hgrown)
  · intro hnow hon hclosed
    rcases smooth with hsmooth | hany
    · rw [isOpen_congr hb.weighting, hsmooth.opened (beq_eq_false_iff_ne.mp hnow) hon] at hclosed
      cases hclosed
    · exact hany
  · rintro ⟨r, hr, hhost, htype, hnot⟩
    rcases smooth with hsmooth | hany
    · refine absurd (listing_complete hr ?_ hhost htype ?_) hnot
      · exact hb.toStage.domain_eq hlength tracks.mem hsmooth.domain r hr
      · rw [hb.length]
        exact hsmooth.reach
    · exact hany
  · rintro p z' ⟨hall, placed, h⟩
    exact ⟨h.covered tracks hb valid hlength hall, h.waits, h.weighting.trans hb.weighting,
      .grown hlength hb.toStage (h.entries_drop hb) h.toGrown⟩

omit valid in
/-- The records of entries that only the tracked set has are deleted. -/
theorem ensures_deletes_tracked (hlength : new.entries.length ≤ records.length)
    (hb : Kept z₀ records t.config new (Plan.weightingChange t.config new == some .enabled)
      new.entries.length p zb) :
    (runActions new (Plan.weightingChange t.config new == some .enabled) p
      (Plan.actionsFrom t.config new new.entries.length
        ((t.config.entries.zip t.id.ids).drop new.entries.length) [])).Ensures remote inv
      (Acted z₀ records t.config new) err zb := by
  have sure : zb.failures = [] ∨ ∀ e z', err e z' := by
    rw [hb.failures]
    exact smooth.imp (fun h => h.calm) fun h => h
  have hgone : ∀ c z', Shrunk zb ((records.drop new.entries.length).map (·.id)) z' →
      inv c z' := by
    intro c z' h
    exact hinv c z' (.shrunk hlength hb.toStage h)
  refine (ensures_deletes (A := fun i p' z' => p' = p ∧ new.entries.length ≤ i ∧
    Shrunk zb ((records.drop new.entries.length).map (·.id)) z')
    ?_ rfl ⟨rfl, Nat.le_refl _, .refl hb.tidy _⟩).weaken ?_
  · rintro i b id _ z' hbefore ⟨rfl, hi, h⟩
    obtain ⟨r, hr, rfl, -⟩ := tracks.zip_getElem? hbefore
    have hmem : r.id ∈ (records.drop new.entries.length).map (·.id) := by
      refine List.mem_map_of_mem (List.mem_of_getElem? (i := i - new.entries.length) ?_)
      rw [List.getElem?_drop, Nat.add_sub_cancel' hi]
      exact hr
    rw [runAction, Dialogue.ensures_bind]
    refine (h.deleteOne hmem sure hgone).weaken ?_
    intro _ z'' h'
    exact ⟨rfl, Nat.le_succ_of_le hi, h'⟩
  · rintro _ z' ⟨rfl, -, h⟩
    exact ⟨h.covered tracks hb hlength, hb.waits, h.weighting.trans hb.weighting,
      .shrunk hlength hb.toStage h⟩

/-- All actions of an update. -/
theorem ensures_actions_tracked :
    (runActions new (Plan.weightingChange t.config new == some .enabled) ⟨t.id.ids, [], none⟩
      (Plan.actionsFrom t.config new 0 (t.config.entries.zip t.id.ids) new.entries)).Ensures
      remote inv (Acted z₀ records t.config new) err z₀ := by
  refine ensures_actionsFrom
    (R := Kept z₀ records t.config new (Plan.weightingChange t.config new == some .enabled))
    ?_ ?_ ?_ (.zero tracks)
  · refine ensures_reconcile_kept tracks (smooth.imp (fun h => h.calm) fun h => h) ?_ ?_
    · intro c n z' hn hn' h
      exact hinv c z' (.stage hn hn' h)
    · intro i r e hr he hnow hon hclosed
      rcases smooth with hsmooth | hany
      · rw [hsmooth.named i r e hr he, hsmooth.opened (beq_eq_false_iff_ne.mp hnow) hon] at hclosed
        cases hclosed
      · exact hany
  · rw [tracks.length_zip]
    intro p₀ zb hlength hb
    exact ensures_creates_tracked tracks valid smooth hinv hlength hb
  · rw [tracks.length_zip]
    intro p zb hlength hb
    exact ensures_deletes_tracked tracks smooth hinv hlength hb

end

/-- An update of a set that has just been read passes through the zones described, and what it
leaves covers the desired set. -/
theorem ensures_update_tracked {post : TrackedSet → Zone → Prop}
    (tracks : Tracks z₀ domain records t) (valid : new.fault? = none)
    (hdomain : new.domain = domain)
    (smooth : Smooth z₀ records t.config new ∨ ∀ e z', err e z')
    (hinv : ∀ c z, Passes z₀ records t.config new z → inv c z)
    (hpost : ∀ t' z, Updated z₀ records t.config new t' z → post t' z) :
    (update t new).Ensures remote inv post err z₀ := by
  have admissible := RecordSet.fault?_eq_none_iff.mp valid
  have sure : z₀.failures = [] ∨ ∀ e z', err e z' := smooth.imp (fun h => h.calm) fun h => h
  -- whatever comes after the actions leaves all cores alone
  have htouched : ∀ {p z}, Acted z₀ records t.config new p z →
      ∀ c z', z'.Tidy → z'.cores = z.cores → inv c z' := by
    intro p z h c z' htidy hcores
    exact hinv c z' (.touched h.passes htidy hcores)
  refine ensures_update (Acted z₀ records t.config new) ?_ ?_ ?_ ?_
  · rintro (hfault | hother | hsize)
    · exact absurd valid hfault
    · exact absurd (tracks.domain_eq.trans hdomain.symm) hother
    · exact absurd tracks.size hsize
  · intro _ _ _
    exact ensures_actions_tracked tracks admissible smooth hinv
  · intro p z' h
    refine h.covered.settle admissible sure (htouched h) hpost h.waits h.weighting ?_
    exact smooth.imp (fun h => h.named) fun h => h
  · -- a plan without actions has no entry to add or to drop, so all IDs are those of entries
    intro hnil hnone h
    have hlength := Plan.length_eq_of_actionsFrom_nil hnil
    have hall : t.id.ids.take new.entries.length = t.id.ids := by
      refine List.take_of_length_le (Nat.le_of_eq ?_)
      rw [← hlength, tracks.length_zip, tracks.ids, List.length_map]
    have hid : t.id = ⟨t.id.ids.take new.entries.length⟩ := by rw [hall]
    rw [hid]
    refine h.covered.readBack admissible sure (htouched h) hpost rfl ?_
    rw [hnone]
    rfl

section

variable (tracks : Tracks z₀ domain records t) (valid : new.fault? = none)
  (hdomain : new.domain = domain)
include tracks valid hdomain

/-- Whatever fails, every step of the update leaves one of the zones described. -/
theorem Tracks.steps_pass :
    ∀ x ∈ (update t new).steps remote z₀, Passes z₀ records t.config new x.2 := by
  have hensures : (update t new).Ensures remote (fun _ z => Passes z₀ records t.config new z)
      (fun _ _ => True) (fun _ _ => True) z₀ :=
    ensures_update_tracked tracks valid hdomain (.inr fun _ _ => trivial) (fun _ _ h => h)
      fun _ _ _ => trivial
  exact hensures.steps

/-- Whatever could fail, an update that has succeeded covers the desired set. -/
theorem Tracks.updated_of_run {t' : TrackedSet}
    (hrun : (update t new).run remote z₀ = (.ok t', z)) :
    Updated z₀ records t.config new t' z := by
  have hensures : (update t new).Ensures remote (fun _ _ => True)
      (Updated z₀ records t.config new) (fun _ _ => True) z₀ :=
    ensures_update_tracked tracks valid hdomain (.inr fun _ _ => trivial) (fun _ _ _ => trivial)
      fun _ _ h => h
  exact hensures.post_of_run hrun

/-- Where nothing can fail, the update succeeds. -/
theorem Smooth.exists_updated (smooth : Smooth z₀ records t.config new) :
    ∃ t' z, (update t new).run remote z₀ = (.ok t', z) ∧
      Updated z₀ records t.config new t' z := by
  have hensures : (update t new).Ensures remote (fun _ _ => True)
      (Updated z₀ records t.config new) (fun _ _ => False) z₀ :=
    ensures_update_tracked tracks valid hdomain (.inl smooth) (fun _ _ _ => trivial)
      fun _ _ h => h
  exact hensures.exists_run

end

end

end Zone

end WeightedDns
