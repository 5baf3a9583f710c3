import WeightedDns.Proofs.Create.Finish
import WeightedDns.Proofs.Update.Group

/-!
# What a create leaves

A create that succeeds leaves a record of its own for every entry, with everything that the entry
asks for, and the set that it returns is read from these records (`ensures_founded`). Records of
other IDs are as they were. On the way the zone is always one in which some entries have got
records (`Underway`).
-/

namespace WeightedDns

open Lifecycle

namespace Lifecycle

/-- Look a zone up if asked for. -/
def lookUp (preflight : Bool) (s : RecordSet) : Operation Unit := do
  if preflight then
    let _ ← attempt (.describeDomain s.domain) (.describeDomain s.domain)
    pure ()

/-- Switch weighting on and set the weights of records, if it is to be on. -/
def weighGroup (s : RecordSet) (ids : List String) : Operation Unit := do
  if s.weighting.isOn then
    setWeighting s .enabled
    weighAll (ids.zip s.entries)

/-- What a create does once every entry has its record. -/
def finish (s : RecordSet) (records : List (String × Extras)) : Operation TrackedSet := do
  weighGroup s (records.map (·.1))
  applyAllExtras (records.zip s.entries)
  let id ← resourceId (records.map (·.1))
  readBack id s

/-- An admissible create lists the zone, sees to the records and finishes. -/
theorem create_eq {s : RecordSet} (hfault : s.fault? = none) (preflight : Bool) :
    create preflight s =
      lookUp preflight s >>= fun _ => listed s >>= fun known =>
        ensureAll s known s.entries >>= finish s := by
  unfold create accept lookUp finish weighGroup
  rw [hfault]
  cases preflight <;> cases s.weighting.isOn <;>
    simp only [Bool.false_eq_true, if_true, if_false, Dialogue.bind_assoc, Dialogue.pure_eq,
      Dialogue.done_bind]

end Lifecycle

namespace Zone

/-- The set has been read from records that fit the entries of a configuration one by one. -/
structure Created (s : RecordSet) (t : TrackedSet) (z : Zone) : Prop where
  tracks : Tracks z s.domain (z.fetched t.id.ids) t
  size : t.id.ids.length = s.entries.length
  fits : ∀ (i : Nat) (e : Entry), s.entries[i]? = some e →
    ∃ r, (z.fetched t.id.ids)[i]? = some r ∧ r.Fits s e

/-- What a create has made of a zone once every entry has its record. -/
structure Equipped (z₀ : Zone) (s : RecordSet) (ids : List String) (z : Zone) : Prop where
  tidy : z.Tidy
  length : z.records.length ≤ z₀.records.length + s.entries.length
  size : ids.length = s.entries.length
  nodup : ids.Nodup
  origin : ∀ (i : Nat) (e : Entry) (id : String), s.entries[i]? = some e → ids[i]? = some id →
    ∀ r, z₀.record? id = some r → r ∈ z₀.listing s ∧ r.value = e.value
  unlisted : ∀ (i : Nat) (e : Entry) (id : String), s.entries[i]? = some e →
    ids[i]? = some id → z₀.record? id = none → ∀ r ∈ z₀.listing s, r.value ≠ e.value
  first : ∀ (i : Nat) (e : Entry) (id : String), s.entries[i]? = some e → ids[i]? = some id →
    ∀ r, (z₀.listing s).find? (fun r => r.value == e.value) = some r → id = r.id
  labels : z₀.labels <+: z.labels
  added : z.added = z₀.added ++
    ((s.entries.zip ids).filter fun q => (z₀.record? q.2).isNone).map fun q => .of s q.1
  made : ∀ (i : Nat) (e : Entry) (id : String), s.entries[i]? = some e → ids[i]? = some id →
    ∃ r, z.record? id = some r ∧ r.Fits s e ∧ Adorned s [] e r
  others : ∀ id, id ∉ ids → z.record? id = z₀.record? id
  weighting : z.weighting =
    if s.weighting.isOn then setSwitch (setName s) true z₀.weighting else z₀.weighting
  failures : z.failures = z₀.failures

/-- What a create that has succeeded leaves and returns. -/
structure Founded (z₀ : Zone) (s : RecordSet) (t : TrackedSet) (z : Zone) : Prop
    extends Equipped z₀ s t.id.ids z where
  tracks : Tracks z s.domain (z.fetched t.id.ids) t

/-- The zones that a create passes through: some entries have got records, and weight, remark and
status of these and the switch of the set do not matter. -/
def Underway (z₀ : Zone) (s : RecordSet) (z : Zone) : Prop :=
  ∃ placed zg, Grown z₀ s placed zg ∧ placed.map (·.1) <+: s.entries ∧
    TouchedAll (setName s) (placed.map (·.2)) zg z

section

variable {z₀ z : Zone} {s : RecordSet} {t : TrackedSet} {placed : List (Entry × String)}

/-- All records that have been created are of the group of the configuration. -/
theorem Created.uniform (h : Created s t z) : Uniform (z.fetched t.id.ids) t.config := by
  refine h.tracks.uniform ?_
  have hgroup : ∀ r ∈ z.fetched t.id.ids, r.host = s.host ∧ r.type = s.type ∧ r.line = s.line := by
    intro r hr
    obtain ⟨i, hi⟩ := List.mem_iff_getElem?.mp hr
    have hlt : i < s.entries.length := by
      have hbound := (List.getElem?_eq_some_iff.mp hi).1
      have hsub := (z.map_id_fetched_sublist t.id.ids).length_le
      rw [List.length_map] at hsub
      rw [← h.size]
      omega
    obtain ⟨r', hr', hfits⟩ := h.fits i _ (List.getElem?_eq_getElem hlt)
    obtain rfl : r = r' := Option.some.inj (hi.symm.trans hr')
    exact ⟨hfits.host, hfits.type, hfits.line⟩
  intro r hr r' hr'
  obtain ⟨hhost, htype, hline⟩ := hgroup r hr
  obtain ⟨hhost', htype', hline'⟩ := hgroup r' hr'
  exact ⟨hhost.trans hhost'.symm, htype.trans htype'.symm, hline.trans hline'.symm⟩

/-! ## The set that is returned -/

section

variable {ids : List String}

theorem Equipped.exists_id (h : Equipped z₀ s ids z) {i : Nat} {e : Entry}
    (he : s.entries[i]? = some e) : ∃ id, ids[i]? = some id := by
  have hlt := (List.getElem?_eq_some_iff.mp he).1
  rw [← h.size] at hlt
  exact ⟨_, List.getElem?_eq_getElem hlt⟩

/-- The record of each ID is that of some entry. -/
theorem Equipped.exists_fits (h : Equipped z₀ s ids z) {id : String} (hid : id ∈ ids) :
    ∃ e r, z.record? id = some r ∧ r.Fits s e := by
  obtain ⟨i, hi⟩ := List.mem_iff_getElem?.mp hid
  have hlt := (List.getElem?_eq_some_iff.mp hi).1
  rw [h.size] at hlt
  obtain ⟨r, hr, hfits, -⟩ := h.made i _ id (List.getElem?_eq_getElem hlt) hi
  exact ⟨_, r, hr, hfits⟩

theorem Equipped.isSome_of_mem (h : Equipped z₀ s ids z) : ∀ id ∈ ids, (z.record? id).isSome := by
  intro id hid
  obtain ⟨e, r, hr, -⟩ := h.exists_fits hid
  rw [hr]
  rfl

/-- But for the switch of the set, the entries have got their records in the zone. -/
theorem Equipped.grown (h : Equipped z₀ s ids z) :
    Grown z₀ s (s.entries.zip ids) { z with weighting := z₀.weighting } := by
  have hplace : ∀ q ∈ s.entries.zip ids, ∃ i : Nat,
      s.entries[i]? = some q.1 ∧ ids[i]? = some q.2 := by
    intro q hq
    obtain ⟨i, hi⟩ := List.mem_iff_getElem?.mp hq
    exact ⟨i, List.getElem?_zip_eq_some.mp hi⟩
  have hids : (s.entries.zip ids).map (·.2) = ids := List.map_snd_zip (Nat.le_of_eq h.size)
  refine ⟨⟨h.tidy.ids_nodup, h.tidy.ids_numbered⟩, ?_, by rw [hids]; exact h.nodup, ?_, ?_, ?_,
    h.labels, h.added, ?_, by rw [hids]; exact h.others, rfl, h.failures⟩
  · rw [List.length_zip, h.size, Nat.min_self]
    exact h.length
  · intro q hq
    obtain ⟨i, he, hid⟩ := hplace q hq
    exact h.origin i q.1 q.2 he hid
  · intro q hq
    obtain ⟨i, he, hid⟩ := hplace q hq
    exact h.unlisted i q.1 q.2 he hid
  · intro q hq
    obtain ⟨i, he, hid⟩ := hplace q hq
    exact h.first i q.1 q.2 he hid
  · intro q hq
    obtain ⟨i, he, hid⟩ := hplace q hq
    obtain ⟨r, hr, hfits, -⟩ := h.made i q.1 q.2 he hid
    exact ⟨r, hr, hfits⟩

/-- Each entry has its record in its place, as far as the set is read back. -/
theorem Equipped.fetched (h : Equipped z₀ s ids z) {i : Nat} {e : Entry}
    (he : s.entries[i]? = some e) :
    ∃ r, (z.fetched ids)[i]? = some r ∧ r.Fits s e ∧ Adorned s [] e r := by
  obtain ⟨id, hid⟩ := h.exists_id he
  obtain ⟨r, hr, hfits, hadorned⟩ := h.made i e id he hid
  refine ⟨r, ?_, hfits, hadorned⟩
  rw [fetched_getElem? h.isSome_of_mem, hid, Option.bind_some, hr]

theorem Founded.created (h : Founded z₀ s t z) : Created s t z where
  tracks := h.tracks
  size := h.size
  fits i e he := by
    obtain ⟨r, hr, hfits, -⟩ := h.toEquipped.fetched he
    exact ⟨r, hr, hfits⟩

end

/-! ## The records -/

/-- The record is there with remark and status as they have been noted. -/
def Noted (z : Zone) (x : String × Extras) : Prop :=
  ∃ r, z.record? x.1 = some r ∧ x.2.remark = r.remark.getD "" ∧ x.2.status = r.status

/-- What a record of an entry is after weights have been set. -/
structure Weighed (s : RecordSet) (e : Entry) (r r' : StoredRecord) : Prop where
  remark : r'.remark = r.remark
  status : r'.status = r.status
  weight : s.weighting.isOn = true → e.weight ≠ 0 → r'.weight = some e.weight

/-- The rest of the entries have got records in a zone where some have had theirs. -/
structure Supplied (z₀ : Zone) (s : RecordSet) (placed : List (Entry × String)) (z : Zone)
    (rest : List Entry) (found : List (String × Extras)) (z' : Zone) : Prop where
  size : found.length = rest.length
  grown : Grown z₀ s (placed ++ rest.zip (found.map (·.1))) z'
  before : ∀ q ∈ placed, z'.record? q.2 = z.record? q.2
  noted : ∀ x ∈ found, Noted z' x

/-! ## The IDs of all entries -/

section

variable {ids : List String}

/-- All entries have got records, whatever has been done to these since. -/
theorem Grown.underway (h : Grown z₀ s (s.entries.zip ids) z) (size : ids.length = s.entries.length)
    {z' : Zone} (ht : TouchedAll (setName s) ids z z') : Underway z₀ s z' := by
  refine ⟨_, z, h, ⟨[], ?_⟩, ?_⟩
  · rw [List.append_nil, List.map_fst_zip (Nat.le_of_eq size.symm)]
  · rw [List.map_snd_zip (Nat.le_of_eq size)]
    exact ht

theorem Grown.nodup_ids (h : Grown z₀ s (s.entries.zip ids) z)
    (size : ids.length = s.entries.length) : ids.Nodup := by
  have hnodup := h.nodup
  rwa [List.map_snd_zip (Nat.le_of_eq size)] at hnodup

theorem Grown.made_at (h : Grown z₀ s (s.entries.zip ids) z) {i : Nat} {e : Entry} {id : String}
    (he : s.entries[i]? = some e) (hid : ids[i]? = some id) :
    (e, id) ∈ s.entries.zip ids ∧ ∃ r, z.record? id = some r ∧ r.Fits s e := by
  have hmem : (e, id) ∈ s.entries.zip ids :=
    List.mem_of_getElem? (List.getElem?_zip_eq_some.mpr ⟨he, hid⟩)
  exact ⟨hmem, h.made _ hmem⟩

end

/-- Where weighting is on, a weight that an entry asks for is set. -/
theorem ensures_weigh {inv : Call → Zone → Prop} {err : LifecycleError → Zone → Prop}
    {id : String} {e : Entry} {r : StoredRecord} (s : RecordSet) (tidy : z.Tidy)
    (sure : z.failures = [] ∨ ∀ e z', err e z') (hinv : ∀ c z', Touched id z z' → inv c z')
    (hr : z.record? id = some r) (hopen : z.isOpen (fullName r.host r.domain) = true) :
    (whenSome (ownWeight e) (setWeight id)).Ensures remote inv (fun _ z' => Touched id z z' ∧
      ∀ r, z.record? id = some r → ∃ r', z'.record? id = some r' ∧ Weighed s e r r') err z := by
  have hrefl := Touched.refl tidy id
  refine ensures_whenSome ?_ ?_
  · intro hnone
    refine ⟨hrefl, fun r hr => ⟨r, hr, rfl, rfl, ?_⟩⟩
    intro _ hweight
    exact absurd (ownWeight_eq_none_iff.mp hnone) hweight
  · intro w hw
    obtain rfl := eq_of_ownWeight_eq_some hw
    refine ensures_setWeight_touched tidy sure hinv ?_ ?_ ?_
    · intro hnone
      rw [hr] at hnone
      cases hnone
    · intro r' hr' hclosed
      obtain rfl : r = r' := Option.some.inj (hr.symm.trans hr')
      rw [hopen] at hclosed
      cases hclosed
    · intro r' z' hr' ht hset
      refine ⟨ht, ?_⟩
      intro r hr
      obtain rfl : r = r' := Option.some.inj (hr.symm.trans hr')
      exact ⟨_, hset, rfl, rfl, fun _ _ => rfl⟩

/-! ## The steps of a create -/

section

variable {inv : Call → Zone → Prop} {err : LifecycleError → Zone → Prop}
  (sure : z₀.failures = [] ∨ ∀ e z', err e z') (hinv : ∀ c z', Underway z₀ s z' → inv c z')
include sure hinv

theorem Grown.ensureAll {rest : List Entry} (h : Grown z₀ s placed z) (tidy₀ : z₀.Tidy)
    (valid : s.Admissible) (hrest : placed.map (·.1) ++ rest = s.entries)
    (htaken : (∃ r ∈ z₀.records, r.host = s.host ∧ r.type = s.type ∧ r ∉ z₀.listing s) →
      ∀ e z', err e z') :
    (ensureAll s (z₀.listing s) rest).Ensures remote inv (Supplied z₀ s placed z rest) err z := by
  induction rest generalizing placed z with
  | nil =>
    rw [Lifecycle.ensureAll, Dialogue.pure_eq, Dialogue.ensures_done]
    exact ⟨rfl, by simpa using h, fun _ _ => rfl, fun _ hx => nomatch hx⟩
  | cons e rest ih =>
    -- no two entries have one value, so the record of an earlier entry is never found again
    have hnew : ∀ q ∈ placed, q.1.value ≠ e.value := by
      have hdistinct := valid.values_distinct
      rw [← hrest, List.map_append, List.nodup_append] at hdistinct
      intro q hq
      exact hdistinct.2.2 _ (List.mem_map_of_mem (List.mem_map_of_mem hq)) _
        (List.mem_map_of_mem List.mem_cons_self)
    have hunderway : ∀ c placed' z', (placed' = placed ∨ ∃ id, placed' = placed ++ [(e, id)]) →
        Grown z₀ s placed' z' → inv c z' := by
      intro c placed' z' hplaced hgrown
      refine hinv c z' ⟨placed', z', hgrown, ?_, .refl hgrown.tidy _ _⟩
      rw [← hrest]
      rcases hplaced with rfl | ⟨id, rfl⟩
      · exact List.prefix_append _ _
      · exact ⟨rest, by simp⟩
    rw [Lifecycle.ensureAll, Dialogue.ensures_bind]
    refine (h.ensure hnew sure hunderway tidy₀ ?_).weaken ?_
    · rintro ⟨r, hr, hhost, htype, -, hnot⟩
      exact htaken ⟨r, hr, hhost, htype, hnot⟩
    · rintro ⟨id, carried⟩ z₁ ⟨hgrown, hothers, hnoted⟩
      rw [Dialogue.ensures_bind]
      refine (ih hgrown (by simpa using hrest)).weaken ?_
      intro found z' h'
      refine ⟨congrArg (· + 1) h'.size, by simpa using h'.grown, ?_, ?_⟩
      · intro q hq
        rw [h'.before q (List.mem_append_left _ hq), hothers q.2 (hgrown.ne_of_snoc hq)]
      · intro x hx
        rcases List.mem_cons.mp hx with rfl | hx
        · obtain ⟨r, hr, hextras⟩ := hnoted
          have hkept := h'.before (e, id) (List.mem_append_right _ List.mem_cons_self)
          exact ⟨r, hkept.trans hr, hextras⟩
        · exact h'.noted x hx

/-! ## Weights, remarks and status -/

section

variable {ids : List String}

/-- Weighting is on for the records whose weights are set, so none is refused. -/
theorem Grown.weighGroup (h : Grown z₀ s (s.entries.zip ids) z)
    (size : ids.length = s.entries.length) :
    (weighGroup s ids).Ensures remote inv (fun _ z' => TouchedAll (setName s) ids z z' ∧
      z'.weighting =
        (if s.weighting.isOn then setSwitch (setName s) true z.weighting else z.weighting) ∧
      ∀ (i : Nat) (e : Entry) (id : String), s.entries[i]? = some e → ids[i]? = some id →
        ∀ r, z.record? id = some r → ∃ r', z'.record? id = some r' ∧ Weighed s e r r') err z := by
  have hrefl := TouchedAll.refl h.tidy (setName s) ids
  unfold Lifecycle.weighGroup
  split
  · rename_i hon
    rw [Dialogue.ensures_bind]
    refine ensures_setWeighting (by rw [h.failures]; exact sure)
      (fun c => hinv c z (h.underway size hrefl)) ?_
    intro c hc
    have hc : c.added? = none := by rw [hc]; rfl
    have hswitched := TouchedAll.switched h.tidy ids (setName s) Switch.enabled.isOn hc
    refine ⟨fun c' => hinv c' _ (h.underway size hswitched), ?_⟩
    have hkeys : (ids.zip s.entries).map (·.1) = ids := List.map_fst_zip (Nat.le_of_eq size)
    rw [weighAll_eq]
    refine ensures_each (·.1) (fun x => Weighed s x.2) (setName s)
      hswitched.tidy (by rw [hkeys]; exact h.nodup_ids size) ?_ ?_
    · rintro ⟨id, e⟩ hmem z₁ ht hweighting hsame
      rw [hkeys] at ht
      obtain ⟨i, hi⟩ := List.mem_iff_getElem?.mp hmem
      obtain ⟨hid, he⟩ := List.getElem?_zip_eq_some.mp hi
      obtain ⟨-, r, hr, hfits⟩ := h.made_at he hid
      refine ensures_weigh s ht.tidy ?_ ?_ (hsame.trans hr) ?_
      · rw [ht.failures]
        exact h.failures ▸ sure
      · intro c z' h'
        have hall := h'.all (setName s) (List.mem_of_getElem? hid)
        exact hinv c z' (h.underway size (hswitched.trans (ht.trans hall)))
      · rw [hfits.host, hfits.domain, isOpen_congr hweighting]
        exact (z.isOpen_switched _ _ _).trans (if_pos rfl)
    · intro z' ht hweighting hweights
      rw [hkeys] at ht
      refine ⟨hswitched.trans ht, hweighting, ?_⟩
      intro i e id he hid r hr
      have hmem : (id, e) ∈ ids.zip s.entries :=
        List.mem_of_getElem? (List.getElem?_zip_eq_some.mpr ⟨hid, he⟩)
      exact hweights _ hmem r hr
  · rename_i hoff
    refine ⟨hrefl, rfl, ?_⟩
    intro i e id _ _ r hr
    exact ⟨r, hr, rfl, rfl, fun hon => absurd hon hoff⟩

/-- The remarks and status that entries ask for beyond what their records have been noted to
carry. -/
theorem Grown.applyAllExtras {zg : Zone} (h : Grown z₀ s (s.entries.zip ids) zg)
    (size : ids.length = s.entries.length) (ht : TouchedAll (setName s) ids zg z)
    {found : List (String × Extras)} (hids : found.map (·.1) = ids)
    (hnoted : ∀ x ∈ found, Noted z x) :
    (applyAllExtras (found.zip s.entries)).Ensures remote inv (fun _ z' =>
      TouchedAll (setName s) ids z z' ∧ z'.weighting = z.weighting ∧
      ∀ (i : Nat) (e : Entry) (id : String), s.entries[i]? = some e → ids[i]? = some id →
        ∀ r, z.record? id = some r → ∃ r', z'.record? id = some r' ∧ r'.core = r.core ∧
          r'.weight = r.weight ∧ r'.remark.getD "" = e.remarkText ∧ r'.status = e.status)
      err z := by
  have hlength : found.length = s.entries.length := by
    rw [← size, ← hids, List.length_map]
  have hkeys : (found.zip s.entries).map (·.1.1) = ids := by
    have hmap : (found.zip s.entries).map (·.1.1) =
        ((found.zip s.entries).map (·.1)).map (·.1) := by
      rw [List.map_map]
      rfl
    rw [hmap, List.map_fst_zip (Nat.le_of_eq hlength), hids]
  have hfailures : z.failures = z₀.failures := ht.failures.trans h.failures
  rw [applyAllExtras_eq]
  refine ensures_each (·.1.1)
    (fun x => Dressed (missingRemark x.2 x.1.2) (missingStatus x.2 x.1.2)) (setName s)
    ht.tidy (by rw [hkeys]; exact h.nodup_ids size) ?_ ?_
  · rintro ⟨⟨id, carried⟩, e⟩ hmem z₁ ht₁ _ hsame
    rw [hkeys] at ht₁
    have hx := (List.of_mem_zip hmem).1
    have hid : id ∈ ids := hids ▸ List.mem_map_of_mem hx
    have hfound : z₁.record? id ≠ none := by
      obtain ⟨r, hr, -⟩ := hnoted _ hx
      rw [hsame, hr]
      simp
    refine ensures_dress ht₁.tidy ?_ ?_ ?_ ?_
    · rw [ht₁.failures, hfailures]
      exact sure
    · intro c z' h'
      exact hinv c z' (h.underway size (ht.trans (ht₁.trans (h'.all _ hid))))
    · intro hnone
      exact absurd hnone hfound
    · intro z' h' hr'
      exact ⟨h', hr'⟩
  · intro z' ht' hweighting hdressed
    rw [hkeys] at ht'
    refine ⟨ht', hweighting, ?_⟩
    intro i e id he hid r hr
    rw [← hids, List.getElem?_map, Option.map_eq_some_iff] at hid
    obtain ⟨x, hx, rfl⟩ := hid
    have hmem : (x, e) ∈ found.zip s.entries :=
      List.mem_of_getElem? (List.getElem?_zip_eq_some.mpr ⟨hx, he⟩)
    obtain ⟨r', hr', hd⟩ := hdressed _ hmem r hr
    -- what was noted is what the record carries, so what is missing makes up for it
    obtain ⟨r₁, hr₁, hremark, hstatus⟩ := hnoted x (List.mem_of_getElem? hx)
    obtain rfl : r = r₁ := Option.some.inj (hr.symm.trans hr₁)
    refine ⟨r', hr', hd.core, hd.weight, ?_, ?_⟩
    · rw [hd.remark, ← hremark, missingRemark_getD]
    · rw [hd.status, ← hstatus, missingStatus_getD]

end

/-! ## A whole create -/

/-- The set is read back with all its records. -/
theorem Equipped.readBack {ids : List String} {post : TrackedSet → Zone → Prop}
    (h : Equipped z₀ s ids z) (valid : s.Admissible) (hunderway : Underway z₀ s z)
    (hpost : ∀ t z', Founded z₀ s t z' → post t z') :
    (do
      let id ← resourceId ids
      readBack id s : Operation TrackedSet).Ensures remote inv post err z := by
  have hne := valid.ne_nil h.size
  rw [h.tidy.resourceId_eq hne h.isSome_of_mem, Dialogue.done_bind]
  refine ensures_readBack_whole h.tidy (by rw [h.failures]; exact sure)
    (fun c _ => hinv c z hunderway) h.size hne h.isSome_of_mem h.nodup ?_
  intro t hids htracks
  refine hpost t z ⟨?_, ?_⟩
  · rw [hids]
    exact h
  · rw [hids]
    exact htracks

theorem Grown.finish {found : List (String × Extras)} {post : TrackedSet → Zone → Prop}
    (h : Grown z₀ s (s.entries.zip (found.map (·.1))) z) (size : found.length = s.entries.length)
    (hnoted : ∀ x ∈ found, Noted z x) (valid : s.Admissible)
    (hpost : ∀ t z', Founded z₀ s t z' → post t z') :
    (finish s found).Ensures remote inv post err z := by
  have hsize : (found.map (·.1)).length = s.entries.length := by
    rw [List.length_map, size]
  unfold Lifecycle.finish
  rw [Dialogue.ensures_bind]
  refine (h.weighGroup sure hinv hsize).weaken ?_
  rintro _ z₁ ⟨ht₁, hweighting₁, hweighed⟩
  have hnoted₁ : ∀ x ∈ found, Noted z₁ x := by
    intro x hx
    obtain ⟨r, hr, hremark, hstatus⟩ := hnoted x hx
    obtain ⟨i, hi⟩ := List.mem_iff_getElem?.mp hx
    have hlt := (List.getElem?_eq_some_iff.mp hi).1
    rw [size] at hlt
    have hid : (found.map (·.1))[i]? = some x.1 := by rw [List.getElem?_map, hi, Option.map_some]
    obtain ⟨r', hr', hw⟩ := hweighed i _ _ (List.getElem?_eq_getElem hlt) hid r hr
    exact ⟨r', hr', by rw [hw.remark, hremark], by rw [hw.status, hstatus]⟩
  rw [Dialogue.ensures_bind]
  refine (h.applyAllExtras sure hinv hsize ht₁ rfl hnoted₁).weaken ?_
  rintro _ z₂ ⟨ht₂, hweighting₂, hdressed⟩
  have ht := ht₁.trans ht₂
  refine Equipped.readBack sure hinv ?_ valid (h.underway hsize ht) hpost
  refine ⟨ht.tidy, ?_, hsize, h.nodup_ids hsize, ?_, ?_, ?_, ?_, ht.added.trans h.added, ?_, ?_, ?_,
    ht.failures.trans h.failures⟩
  · have hgrown := h.length
    rw [List.length_zip, hsize, Nat.min_self] at hgrown
    rw [length_of_cores ht.cores]
    exact hgrown
  · intro i e id he hid
    exact h.origin _ (h.made_at he hid).1
  · intro i e id he hid
    exact h.unlisted _ (h.made_at he hid).1
  · intro i e id he hid
    exact h.first _ (h.made_at he hid).1
  · rw [labels_of_cores ht.cores]
    exact h.labels
  · intro i e id he hid
    obtain ⟨-, r, hr, hfits⟩ := h.made_at he hid
    obtain ⟨r₁, hr₁, hw⟩ := hweighed i e id he hid r hr
    obtain ⟨r₂, hr₂, -, hweight₂, hremark, hstatus⟩ := hdressed i e id he hid r₁ hr₁
    obtain ⟨r', hr', hcore⟩ := exists_record_of_cores ht.cores hr
    obtain rfl : r₂ = r' := Option.some.inj (hr₂.symm.trans hr')
    refine ⟨r₂, hr₂, hfits.of_core_eq hcore, ?_, hremark, hstatus⟩
    intro hon hne
    exact .inl (hweight₂.trans (hw.weight hon hne))
  · intro id hid
    rw [ht.others id hid]
    refine h.others id ?_
    rw [List.map_snd_zip (Nat.le_of_eq hsize)]
    exact hid
  · rw [hweighting₂, hweighting₁, h.weighting]

/-- A create leaves the zone with a record for every entry, and on the way with records for some
of them. -/
theorem ensures_founded {post : TrackedSet → Zone → Prop} (tidy : z₀.Tidy)
    (hfault : s.fault? ≠ none → ∀ e, err e z₀) (preflight : Bool)
    (hname : preflight = true → s.domain ≠ domain → ∀ e, err e z₀)
    (htaken : (∃ r ∈ z₀.records, r.host = s.host ∧ r.type = s.type ∧ r ∉ z₀.listing s) →
      ∀ e z', err e z')
    (hpost : ∀ t z', Founded z₀ s t z' → post t z') :
    (create preflight s).Ensures remote inv post err z₀ := by
  have hgrown := Grown.refl tidy s
  have hstart : ∀ c, inv c z₀ := fun c =>
    hinv c z₀ ⟨[], z₀, hgrown, List.nil_prefix, .refl tidy _ _⟩
  cases hvalid : s.fault? with
  | some fault =>
    unfold create accept
    rw [hvalid]
    exact hfault (by rw [hvalid]; simp) _
  | none =>
    have valid := RecordSet.fault?_eq_none_iff.mp hvalid
    have hlisted : (listed s >>= fun known => ensureAll s known s.entries >>= finish s).Ensures
        remote inv post err z₀ := by
      rw [Dialogue.ensures_bind]
      refine ensures_listed sure (fun c _ => hstart c) ?_
      rw [Dialogue.ensures_bind]
      refine (hgrown.ensureAll sure hinv tidy valid (List.nil_append _) htaken).weaken ?_
      intro found z' h'
      exact Grown.finish sure hinv h'.grown h'.size h'.noted valid hpost
    rw [create_eq hvalid, Dialogue.ensures_bind]
    unfold lookUp
    split
    · rename_i hpreflight
      rw [Dialogue.ensures_bind]
      refine ensures_attempt sure (hstart _) ?_
      simp only [perform]
      split
      · exact ⟨hstart _, hlisted⟩
      · rename_i hother
        exact ⟨hstart _, hname hpreflight hother _⟩
    · exact hlisted

end

/-- A create that succeeds has a record for every entry. -/
theorem ensures_create (preflight : Bool) (s : RecordSet) (tidy : z.Tidy) :
    (create preflight s).Ensures remote (fun _ _ => True) (Created s) (fun _ _ => True) z :=
  ensures_founded (.inr fun _ _ => trivial) (fun _ _ _ => trivial) tidy (fun _ _ => trivial)
    preflight (fun _ _ _ => trivial) (fun _ _ _ => trivial) fun _ _ h => h.created

/-- Whatever could fail, a create that has succeeded leaves the set founded. -/
theorem founded_of_run {preflight : Bool} (tidy : z₀.Tidy)
    (hrun : (create preflight s).run remote z₀ = (.ok t, z)) : Founded z₀ s t z := by
  have hensures : (create preflight s).Ensures remote (fun _ _ => True)
      (fun t z => Founded z₀ s t z) (fun _ _ => True) z₀ :=
    ensures_founded (.inr fun _ _ => trivial) (fun _ _ _ => trivial) tidy (fun _ _ => trivial)
      preflight (fun _ _ _ => trivial) (fun _ _ _ => trivial) fun _ _ h => h
  exact hensures.post_of_run hrun

end

end Zone

end WeightedDns
