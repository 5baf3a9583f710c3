import Mathlib.Data.List.Nodup
import WeightedDns.Proofs.Create.Order
import WeightedDns.Proofs.Create.Outcome
import WeightedDns.Proofs.Zone.Later

/-!
# Repeating a create

Nothing is undone when a create is interrupted, but it can be made again. The records that it has
left are found under host, type and value, so no entry gets a second one (`Underway.halfway`), and
what the second attempt leaves alone has been left alone by the first one as well
(`Underway.others`). And once a create has succeeded, another one finds every record as it is to be
and makes only the calls that every create makes (`Founded.repeats`).
-/

namespace WeightedDns

open Lifecycle

namespace Zone

variable {z z₀ z' : Zone} {s : RecordSet} {t : TrackedSet} {placed : List (Entry × String)}
  {e : Entry} {i : Nat} {id : String}

/-! ## Counting records -/

/-- At most as many records have come as have been added. -/
def Counted (z z' : Zone) : Prop :=
  z'.records.length + z.added.length ≤ z.records.length + z'.added.length

theorem length_of_changeFirst? {f : StoredRecord → StoredRecord} {l l' : List StoredRecord}
    (h : changeFirst? id f l = some l') : l'.length = l.length := by
  induction l generalizing l' with
  | nil => cases h
  | cons r rest ih =>
    unfold changeFirst? at h
    split at h
    · cases h
      rfl
    · obtain ⟨rest', hrest, rfl⟩ := Option.map_eq_some_iff.mp h
      exact congrArg (· + 1) (ih hrest)

theorem Counted.noted (h : z'.records.length ≤ z.records.length) (hadded : z'.added = z.added)
    (c : Call) : Counted z (z'.note c) := by
  rw [Counted, added_note, List.length_append, hadded, note_records]
  omega

theorem counted_change (z : Zone) (id : String) (f : StoredRecord → StoredRecord) (c : Call) :
    Counted z (z.change id f c).2 := by
  unfold change
  split
  · rename_i records hrecords
    have hlength : ({ z with records } : Zone).records.length ≤ z.records.length :=
      Nat.le_of_eq (length_of_changeFirst? hrecords)
    exact .noted hlength rfl c
  · exact Nat.le_refl _

theorem counted_answer (z : Zone) (c : Call) : Counted z (z.answer c).2 := by
  have hrefl : Counted z z := Nat.le_refl _
  by_cases hreads : c.writes = false
  · rw [answer_of_reads hreads]
    exact hrefl
  · unfold answer
    split
    · exact hrefl
    · cases c with
      | addRecord r =>
        simp only [perform]
        split
        · exact hrefl
        · rw [Counted, added_note, note_records, store_records]
          simp only [List.length_append, List.length_singleton, Call.added?, Option.toList_some]
          show z.records.length + 1 + z.added.length ≤ z.records.length + (z.added.length + 1)
          omega
      | changeRecord r => exact counted_change _ _ _ _
      | deleteRecord id =>
        simp only [perform]
        split
        · have hlength : (z.remove id).records.length ≤ z.records.length :=
            List.length_filter_le _ _
          exact .noted hlength rfl _
        · exact hrefl
      | setWeight id weight =>
        simp only [perform]
        split
        · exact hrefl
        · split
          · exact counted_change _ _ _ _
          · exact hrefl
      | setRemark id remark => exact counted_change _ _ _ _
      | setStatus id status => exact counted_change _ _ _ _
      | setWeighting r => exact .noted (Nat.le_refl _) rfl _
      | _ => exact absurd rfl hreads

theorem ensures_counted {ε α : Type} (d : Dialogue ε α) (z : Zone) :
    d.Ensures remote (fun _ z' => Counted z z') (fun _ z' => Counted z z')
      (fun _ z' => Counted z z') z := by
  refine Dialogue.ensures_of_calls Counted (fun _ => Nat.le_refl _) ?_
    (fun c z => counted_answer z c) d z
  intro z₁ z₂ z₃ h h'
  unfold Counted at h h' ⊢
  omega

/-! ## What an interrupted create leaves -/

/-- What is left of a create for another one: the entries that neither have been added nor had been
stored before still have no record. -/
structure Halfway (z₀ : Zone) (s : RecordSet) (z : Zone) : Prop where
  tidy : z.Tidy
  domains : ∀ r ∈ z.records, r.domain = s.domain
  length : z.records.length ≤ z₀.records.length + s.entries.length
  added : z.added ++ (s.entries.filter fun e => !z.has s e).map (.of s) =
    z₀.added ++ (s.entries.filter fun e => !z₀.has s e).map (.of s)

section

variable (hall : ∀ r ∈ z₀.records, r.domain = s.domain) (hreach : z₀.records.length ≤ walkReach)

theorem has_eq_cores (z : Zone) (s : RecordSet) (e : Entry) :
    z.has s e = z.cores.any fun r =>
      r.host == s.host && r.type == s.type && r.value == e.value := by
  rw [has, cores, List.any_map]
  rfl

include hall in
/-- Records that have been made are in the zone of the set, and the others have been before. -/
theorem domains_of_others {ids : List String} (tidy : z.Tidy)
    (hmade : ∀ id ∈ ids, ∃ r, z.record? id = some r ∧ r.domain = s.domain)
    (hothers : ∀ id, id ∉ ids → z.record? id = z₀.record? id) :
    ∀ r ∈ z.records, r.domain = s.domain := by
  intro r hr
  have hrecord := tidy.record?_of_mem hr
  by_cases hid : r.id ∈ ids
  · obtain ⟨r', hr', hdomain⟩ := hmade r.id hid
    obtain rfl : r = r' := Option.some.inj (hrecord.symm.trans hr')
    exact hdomain
  · rw [hothers r.id hid] at hrecord
    exact hall r (mem_of_record? hrecord)

include hall in
theorem Founded.domains (h : Founded z₀ s t z) : ∀ r ∈ z.records, r.domain = s.domain := by
  refine domains_of_others hall h.tidy ?_ h.others
  intro id hid
  obtain ⟨e, r, hr, hfits⟩ := h.exists_fits hid
  exact ⟨r, hr, hfits.domain⟩

/-- A create has come some way when it is stopped at a call. -/
theorem underway_cutOff (tidy : z.Tidy) (preflight : Bool) (s : RecordSet)
    (failure : ServiceError) (n : Nat) :
    Underway z s ((create preflight s).run (remote.cutOff failure) (z, n)).2.1 := by
  have hunderway : (create preflight s).Ensures remote (fun _ z' => Underway z s z')
      (fun _ _ => True) (fun _ _ => True) z :=
    ensures_founded (.inr fun _ _ => trivial) (fun _ _ h => h) tidy (fun _ _ => trivial)
      preflight (fun _ _ _ => trivial) (fun _ _ _ => trivial) fun _ _ _ => trivial
  have hstart : Underway z s z := ⟨[], z, .refl tidy s, List.nil_prefix, .refl tidy _ _⟩
  exact hunderway.cutOff hstart failure n

/-- An entry that has got its record has one. -/
theorem Grown.has_of_placed (h : Grown z₀ s placed z) {q : Entry × String} (hq : q ∈ placed) :
    z.has s q.1 = true := by
  obtain ⟨r, hr, hfits⟩ := h.made q hq
  exact has_iff.mpr ⟨r, mem_of_record? hr, hfits.host, hfits.type, hfits.value⟩

/-- Whether an entry has a record that has not got one does not change. -/
theorem Grown.has_of_new (h : Grown z₀ s placed z) (tidy₀ : z₀.Tidy)
    (hnew : ∀ q ∈ placed, q.1.value ≠ e.value) : z.has s e = z₀.has s e := by
  rw [Bool.eq_iff_iff, has_iff, has_iff]
  constructor
  · rintro ⟨r, hr, hhost, htype, hvalue⟩
    have hrecord := h.tidy.record?_of_mem hr
    have hid : r.id ∉ placed.map (·.2) := by
      intro hmem
      obtain ⟨q, hq, heq⟩ := List.mem_map.mp hmem
      obtain ⟨r', hr', hfits⟩ := h.made q hq
      rw [heq, hrecord] at hr'
      obtain rfl := Option.some.inj hr'
      exact hnew q hq (hfits.value.symm.trans hvalue)
    rw [h.others r.id hid] at hrecord
    exact ⟨r, mem_of_record? hrecord, hhost, htype, hvalue⟩
  · rintro ⟨r, hr, hhost, htype, hvalue⟩
    have hrecord := tidy₀.record?_of_mem hr
    have hid : r.id ∉ placed.map (·.2) := by
      intro hmem
      obtain ⟨q, hq, heq⟩ := List.mem_map.mp hmem
      obtain ⟨-, hsame⟩ := h.origin q hq r (by rw [heq]; exact hrecord)
      exact hnew q hq (hsame.symm.trans hvalue)
    rw [← h.others r.id hid] at hrecord
    exact ⟨r, mem_of_record? hrecord, hhost, htype, hvalue⟩

include hall hreach

/-- However far a create has come, another one adds the rest. -/
theorem Underway.halfway (h : Underway z₀ s z) (tidy₀ : z₀.Tidy) (valid : s.Admissible) :
    Halfway z₀ s z := by
  obtain ⟨placed, zg, hgrown, ⟨rest, hrest⟩, ht⟩ := h
  have hdistinct := valid.values_distinct
  rw [← hrest, List.map_append, List.nodup_append] at hdistinct
  have hhas : ∀ e, z.has s e = zg.has s e := by
    intro e
    rw [has_eq_cores, has_eq_cores, ht.cores]
  refine ⟨ht.tidy, ?_, ?_, ?_⟩
  · refine domains_of_others hall ht.tidy ?_ fun id hid =>
      (ht.others id hid).trans (hgrown.others id hid)
    intro id hid
    obtain ⟨q, hq, rfl⟩ := List.mem_map.mp hid
    obtain ⟨r, hr, hfits⟩ := hgrown.made q hq
    obtain ⟨r', hr', hcore⟩ := exists_record_of_cores ht.cores hr
    exact ⟨r', hr', (hfits.of_core_eq hcore).domain⟩
  · have hlength := hgrown.length
    have hplaced : placed.length ≤ s.entries.length := by
      rw [← hrest, List.length_append, List.length_map]
      exact Nat.le_add_right _ _
    rw [length_of_cores ht.cores]
    omega
  · -- entries that have got their records are not added again, and for the rest nothing has changed
    have hplaced : ((placed.map (·.1)).filter fun e => !z.has s e) = [] := by
      refine List.filter_eq_nil_iff.mpr ?_
      intro e he
      obtain ⟨q, hq, rfl⟩ := List.mem_map.mp he
      rw [hhas, hgrown.has_of_placed hq]
      simp
    have hleft : (rest.filter fun e => !z.has s e) = rest.filter fun e => !z₀.has s e := by
      refine List.filter_congr ?_
      intro e he
      rw [hhas, hgrown.has_of_new tidy₀]
      intro q hq
      exact hdistinct.2.2 _ (List.mem_map_of_mem (List.mem_map_of_mem hq)) _
        (List.mem_map_of_mem he)
    rw [ht.added, hgrown.added, map_filter_new fun q hq => new_iff hall hreach (hgrown.origin q hq)
      (hgrown.unlisted q hq), ← hrest, List.filter_append, List.filter_append, hplaced, hleft,
      List.nil_append, List.map_append, List.append_assoc]

end

/-! ## The calls that every create makes -/

/-- The kinds of calls that a create cannot do without, even if no record has to change. -/
inductive Needed (preflight : Bool) (s : RecordSet) : ActionKind → Prop where
  | domain (h : preflight = true) : Needed preflight s .describeDomain
  | records : Needed preflight s .listRecords
  | record : Needed preflight s .describeRecord
  | hosts : Needed preflight s .listWeightedHosts
  | switch (h : s.weighting.isOn = true) : Needed preflight s .setWeighting
  | weight {e : Entry} (h : s.weighting.isOn = true) (he : e ∈ s.entries) (hne : e.weight ≠ 0) :
    Needed preflight s .setWeight

/-- The dialogue does not succeed where calls of the kind have been made to fail. -/
def Relies {ε α : Type} (d : Dialogue ε α) (k : ActionKind) : Prop :=
  ∀ z : Zone, z.Tidy → d.Ensures remote (fun _ _ => True)
    (fun _ _ => z.failures.lookup k = none) (fun _ _ => True) z

section

variable {ε ε' α β : Type} {d : Dialogue ε α} {f : α → Dialogue ε β} {k : ActionKind}

theorem relies_fail (e : ε) (k : ActionKind) : Relies (.fail e : Dialogue ε α) k :=
  fun _ _ => trivial

theorem relies_call (c : Call) : Relies (Dialogue.call c) c.kind := by
  intro z _
  refine ensures_call trivial (fun _ _ => trivial) ?_
  intro hallows
  rcases z.perform c with ⟨_ | _, _⟩
  · exact ⟨trivial, trivial⟩
  · exact ⟨trivial, hallows⟩

theorem Relies.mapError (h : Relies d k) (g : ε → ε') : Relies (d.mapError g) k := by
  intro z tidy
  rw [Dialogue.ensures_mapError]
  exact h z tidy

theorem Relies.bind (h : Relies d k) (f : α → Dialogue ε β) : Relies (d >>= f) k := by
  intro z tidy
  rw [Dialogue.ensures_bind]
  exact (h z tidy).weaken fun _ _ hnone => Dialogue.ensures_of_holds hnone

/-- The second of two steps may rely on what the first has ended with. -/
theorem relies_bind {post : α → Prop}
    (h : ∀ z, d.Ensures remote (fun _ _ => True) (fun a _ => post a) (fun _ _ => True) z)
    (hf : ∀ a, post a → Relies (f a) k) : Relies (d >>= f) k := by
  intro z tidy
  rw [Dialogue.ensures_bind]
  refine ((h z).and (ensures_later d tidy)).mono (fun _ _ _ => trivial) ?_ fun _ _ _ => trivial
  rintro a z' ⟨ha, hlater⟩
  have hrest := hf a ha z' hlater.tidy
  rwa [hlater.failures] at hrest

theorem relies_bind_right (hf : ∀ a, Relies (f a) k) : Relies (d >>= f) k := by
  have hany : ∀ z, d.Ensures remote (fun _ _ => True) (fun _ _ => True) (fun _ _ => True) z :=
    fun _ => Dialogue.ensures_of_holds trivial
  exact relies_bind hany fun a _ => hf a

theorem relies_attempt (purpose : Attempt) (c : Call) : Relies (attempt purpose c) c.kind :=
  (relies_call c).mapError _

theorem relies_readBack_record (id : ResourceId) (s : RecordSet) :
    Relies (readBack id s) .describeRecord := by
  intro z tidy
  obtain ⟨ids⟩ := id
  exact ensures_readBack tidy (.inr fun _ _ => trivial) (fun _ _ => trivial) (fun _ _ => trivial)
    (fun _ _ => trivial) fun _ _ _ hallows _ => hallows

theorem relies_assemble (domain : String) (records : List StoredRecord) :
    Relies (assemble domain records) .listWeightedHosts := by
  cases records with
  | nil => exact relies_fail _ _
  | cons first rest =>
    have hhost : Relies (Remote.weightedHost? domain first.host (fullName first.host domain))
        .listWeightedHosts := (relies_call _).bind _
    exact relies_bind_right fun _ => ((hhost.mapError _).bind _).bind _

theorem relies_readBack_hosts (id : ResourceId) (s : RecordSet) :
    Relies (readBack id s) .listWeightedHosts := by
  unfold readBack
  split
  · exact relies_fail _ _
  · intro z tidy
    rw [Dialogue.ensures_bind]
    unfold read?
    rw [Dialogue.ensures_bind]
    refine (ensures_later _ tidy).mono (fun _ _ _ => trivial) ?_ fun _ _ _ => trivial
    intro records z' hlater
    split
    · trivial
    · rw [Dialogue.ensures_bind]
      refine (relies_assemble s.domain records z' hlater.tidy).weaken ?_
      intro state _ hnone
      rwa [hlater.failures] at hnone

theorem relies_weighAll {items : List (String × Entry)} {x : String × Entry} (hx : x ∈ items)
    (hne : x.2.weight ≠ 0) : Relies (weighAll items) .setWeight := by
  induction items with
  | nil => cases hx
  | cons y rest ih =>
    rw [weighAll_eq, each, ← weighAll_eq]
    rcases List.mem_cons.mp hx with rfl | hx
    · have hown : ownWeight x.2 = some x.2.weight := by simp [ownWeight, hne]
      rw [hown]
      exact (relies_attempt _ _).bind _
    · exact relies_bind_right fun _ => ih hx

theorem ensures_ensureAll_size (s : RecordSet) (known : List StoredRecord) (entries : List Entry)
    (z : Zone) : (ensureAll s known entries).Ensures remote (fun _ _ => True)
      (fun found _ => found.length = entries.length) (fun _ _ => True) z := by
  induction entries generalizing z with
  | nil => rfl
  | cons e rest ih =>
    rw [ensureAll, Dialogue.ensures_bind]
    refine (Dialogue.ensures_of_holds trivial).weaken ?_
    intro first z' _
    rw [Dialogue.ensures_bind]
    exact (ih z').weaken fun _ _ hsize => congrArg (· + 1) hsize

theorem relies_finish {s : RecordSet} (h : ∀ id, Relies (readBack id s) k)
    (found : List (String × Extras)) : Relies (finish s found) k :=
  relies_bind_right fun _ => relies_bind_right fun _ => relies_bind_right h

theorem relies_weighGroup_switch {s : RecordSet} (hon : s.weighting.isOn = true)
    (ids : List String) : Relies (weighGroup s ids) .setWeighting := by
  unfold weighGroup
  rw [if_pos hon]
  exact (relies_attempt _ _).bind _

theorem relies_weighGroup_weight {s : RecordSet} (hon : s.weighting.isOn = true) {e : Entry}
    (he : e ∈ s.entries) (hne : e.weight ≠ 0) {ids : List String}
    (hsize : ids.length = s.entries.length) : Relies (weighGroup s ids) .setWeight := by
  unfold weighGroup
  rw [if_pos hon]
  refine relies_bind_right fun _ => ?_
  obtain ⟨i, hi⟩ := List.mem_iff_getElem?.mp he
  have hlt := (List.getElem?_eq_some_iff.mp hi).1
  rw [← hsize] at hlt
  have hmem : (ids[i], e) ∈ ids.zip s.entries :=
    List.mem_of_getElem? (List.getElem?_zip_eq_some.mpr ⟨List.getElem?_eq_getElem hlt, hi⟩)
  exact relies_weighAll hmem hne

/-- Where any of the calls has been made to fail that a create cannot do without, none succeeds. -/
theorem relies_create {preflight : Bool} (valid : s.fault? = none) (h : Needed preflight s k) :
    Relies (create preflight s) k := by
  have hlast : ∀ k, (∀ found, found.length = s.entries.length → Relies (finish s found) k) →
      Relies (create preflight s) k := by
    intro k hfinish
    rw [create_eq valid]
    exact relies_bind_right fun _ => relies_bind_right fun known =>
      relies_bind (ensures_ensureAll_size s known s.entries) hfinish
  cases h with
  | domain h =>
    rw [create_eq valid]
    refine Relies.bind ?_ _
    unfold lookUp
    rw [if_pos h]
    exact (relies_attempt _ _).bind _
  | records =>
    rw [create_eq valid]
    refine relies_bind_right fun _ => Relies.bind ?_ _
    have hpage : Relies (Remote.allRecords s.domain ⟨some s.host, some s.type, none⟩)
        .listRecords :=
      (relies_call _).bind _
    exact (hpage.mapError _).bind _
  | record =>
    exact hlast _ fun found _ => relies_finish (fun id => relies_readBack_record id s) found
  | hosts =>
    exact hlast _ fun found _ => relies_finish (fun id => relies_readBack_hosts id s) found
  | switch hon =>
    exact hlast _ fun found _ => (relies_weighGroup_switch hon _).bind _
  | weight hon he hne =>
    refine hlast _ fun found hsize => (relies_weighGroup_weight hon he hne ?_).bind _
    rw [List.length_map, hsize]

end

/-! ## Failures that do not matter -/

theorem perform_failing (z : Zone) (failures : List (ActionKind × ServiceError)) (c : Call) :
    ({ z with failures } : Zone).perform c =
      ((z.perform c).1, { (z.perform c).2 with failures }) := by
  have hchange : ∀ id f c, ({ z with failures } : Zone).change id f c =
      ((z.change id f c).1, { (z.change id f c).2 with failures }) := by
    intro id f c
    unfold change
    cases changeFirst? id f z.records <;> rfl
  have hrecord : ∀ id, ({ z with failures } : Zone).record? id = z.record? id := fun _ => rfl
  have hopen : ∀ name, ({ z with failures } : Zone).isOpen name = z.isOpen name := fun _ => rfl
  cases c with
  | describeDomain name => simp only [perform]; split <;> rfl
  | listRecords name query request => rfl
  | describeRecord id =>
    simp only [perform, hrecord]
    cases z.record? id <;> rfl
  | addRecord r => simp only [perform]; split <;> rfl
  | changeRecord r => exact hchange _ _ _
  | deleteRecord id =>
    simp only [perform, hrecord]
    split <;> rfl
  | setWeight id weight =>
    simp only [perform, hrecord]
    cases z.record? id with
    | none => rfl
    | some r =>
      simp only [hopen]
      split
      · exact hchange _ _ _
      · rfl
  | setRemark id remark => exact hchange _ _ _
  | setStatus id status => exact hchange _ _ _
  | setWeighting r => rfl
  | listWeightedHosts name host request => rfl

/-- Calls that are not made may fail. -/
theorem run_failing {ε α : Type} {d : Dialogue ε α} {failures : List (ActionKind × ServiceError)}
    (h : ∀ x ∈ d.steps remote { z with failures := [] }, failures.lookup x.1.kind = none) :
    d.run remote { z with failures } =
      ((d.run remote { z with failures := [] }).1,
        { (d.run remote { z with failures := [] }).2 with failures }) := by
  induction d generalizing z with
  | done a => rfl
  | fail e => rfl
  | ask c next ih =>
    have hanswer : remote.answer c { z with failures } =
        ((z.perform c).1, { (z.perform c).2 with failures }) := by
      rw [← perform_failing]
      exact answer_of_allows (h _ List.mem_cons_self)
    have hcalm : remote.answer c { z with failures := [] } =
        ((z.perform c).1, { (z.perform c).2 with failures := [] }) := by
      have hnone : ({ z with failures := [] } : Zone).failures.lookup c.kind = none := rfl
      rw [← perform_failing]
      exact answer_of_allows hnone
    rw [Dialogue.steps, hcalm] at h
    rw [Dialogue.run, Dialogue.run, hanswer, hcalm]
    exact ih _ fun x hx => h x (List.mem_cons_of_mem _ hx)

/-! ## A create after a create -/

/-- As far as a walk reaches, the record of a value that is found first in a listing is the first
one of its label. -/
theorem find?_listing (s : RecordSet) (value : String) (hreach : z.records.length ≤ walkReach) :
    (z.listing s).find? (fun r => r.value == value) = z.records.find? fun r =>
      r.domain == s.domain && r.host == s.host && r.type == s.type && r.value == value := by
  have hall : (z.matching s.domain ⟨some s.host, some s.type, none⟩).length ≤ walkReach :=
    Nat.le_trans (List.length_filter_le _ _) hreach
  rw [listing, List.take_of_length_le hall, matching, List.filter_filter, List.find?_filter]
  congr 1
  funext r
  rw [Bool.eq_iff_iff]
  simp only [selects, Option.all_some, Option.all_none, Bool.and_eq_true, beq_iff_eq,
    decide_eq_true_eq, Bool.and_true]
  constructor
  · rintro ⟨⟨⟨hsame, htype⟩, ⟨hdomain, hholds⟩, -⟩, hvalue⟩
    exact ⟨⟨⟨hdomain, eq_of_holds hholds hsame⟩, htype⟩, hvalue⟩
  · rintro ⟨⟨⟨hdomain, hhost⟩, htype⟩, hvalue⟩
    rw [hhost]
    exact ⟨⟨⟨Text.sameLetters_refl _, htype⟩,
      ⟨hdomain, Text.holds_iff.mpr (List.infix_refl _)⟩, htype⟩, hvalue⟩

/-- What is found first in one zone is found first in another one that only has more labels. -/
theorem find?_of_labels (h : z₀.labels <+: z.labels) (s : RecordSet) (value : String)
    (hreach₀ : z₀.records.length ≤ walkReach) (hreach : z.records.length ≤ walkReach)
    {r₀ : StoredRecord} (hfind : (z₀.listing s).find? (fun r => r.value == value) = some r₀) :
    ∃ r, (z.listing s).find? (fun r => r.value == value) = some r ∧ r.id = r₀.id := by
  have hlabels : ∀ z : Zone, (z.records.find? fun r =>
      r.domain == s.domain && r.host == s.host && r.type == s.type && r.value == value).map
        (·.label) = z.labels.find? fun r =>
      r.domain == s.domain && r.host == s.host && r.type == s.type && r.value == value := by
    intro z
    rw [labels, List.find?_map]
    rfl
  rw [find?_listing s value hreach₀] at hfind
  rw [find?_listing s value hreach]
  have hfirst := hlabels z₀
  obtain ⟨more, hmore⟩ := h
  have hlast := hlabels z
  rw [← hmore, List.find?_append, ← hfirst, hfind] at hlast
  obtain ⟨r, hr, hlabel⟩ := Option.map_eq_some_iff.mp hlast
  exact ⟨r, hr, congrArg (·.id) hlabel⟩

section

variable (hreach₀ : z₀.records.length ≤ walkReach) (hreach : z.records.length ≤ walkReach)
include hreach₀ hreach

/-- The record that an entry has got is the one that is found first for its value. -/
theorem Grown.find? (h : Grown z₀ s placed z) (hdistinct : (placed.map (·.1.value)).Nodup)
    {q : Entry × String} (hq : q ∈ placed) :
    ∃ r, (z.listing s).find? (fun r => r.value == q.1.value) = some r ∧ r.id = q.2 := by
  obtain ⟨m, hm, hfits⟩ := h.made q hq
  have hlisted := listing_complete (mem_of_record? hm) hfits.domain hfits.host hfits.type hreach
  obtain ⟨r, hr⟩ : ∃ r, (z.listing s).find? (fun r => r.value == q.1.value) = some r := by
    refine Option.isSome_iff_exists.mp (List.find?_isSome.mpr ⟨m, hlisted, ?_⟩)
    rw [beq_iff_eq]
    exact hfits.value
  refine ⟨r, hr, ?_⟩
  cases hfind : (z₀.listing s).find? fun r => r.value == q.1.value with
  | some r₀ =>
    obtain ⟨r', hr', hid⟩ := find?_of_labels h.labels s q.1.value hreach₀ hreach hfind
    obtain rfl : r = r' := Option.some.inj (hr.symm.trans hr')
    rw [hid, h.first q hq r₀ hfind]
  | none =>
    -- no record of the label has been there before, so this one has been made, for this value
    have hvalue : r.value = q.1.value := by simpa using List.find?_some hr
    obtain ⟨hstored, hdomain, hhost, htype⟩ := mem_listing (List.mem_of_find?_eq_some hr)
    have hrecord := h.tidy.record?_of_mem hstored
    by_cases hmade : r.id ∈ placed.map (·.2)
    · obtain ⟨q', hq', hid⟩ := List.mem_map.mp hmade
      obtain ⟨r', hr', hfits'⟩ := h.made q' hq'
      rw [hid, hrecord] at hr'
      obtain rfl := Option.some.inj hr'
      obtain rfl := List.inj_on_of_nodup_map hdistinct hq' hq (hfits'.value.symm.trans hvalue)
      exact hid.symm
    · rw [h.others _ hmade] at hrecord
      have hbefore := listing_complete (mem_of_record? hrecord) hdomain hhost htype hreach₀
      have hno := List.find?_eq_none.mp hfind r hbefore
      simp [hvalue] at hno

/-- The record that a create has made for an entry is the one that another one finds for it. -/
theorem Equipped.find? {ids : List String} (h : Equipped z₀ s ids z) (valid : s.Admissible)
    (he : s.entries[i]? = some e) (hid : ids[i]? = some id) :
    ∃ r, (z.listing s).find? (fun r => r.value == e.value) = some r ∧ r.id = id ∧ r.Fits s e ∧
      Adorned s [] e r := by
  have hmem : (e, id) ∈ s.entries.zip ids :=
    List.mem_of_getElem? (List.getElem?_zip_eq_some.mpr ⟨he, hid⟩)
  have hdistinct : ((s.entries.zip ids).map (·.1.value)).Nodup := by
    have hmap : (s.entries.zip ids).map (·.1.value) =
        ((s.entries.zip ids).map (·.1)).map (·.value) := by
      rw [List.map_map]
      rfl
    rw [hmap, List.map_fst_zip (Nat.le_of_eq h.size.symm)]
    exact valid.values_distinct
  have hreach' : ({ z with weighting := z₀.weighting } : Zone).records.length ≤ walkReach := hreach
  obtain ⟨r, hr, hsame⟩ := h.grown.find? hreach₀ hreach' hdistinct hmem
  obtain ⟨m, hm, hfits, hadorned⟩ := h.made i e id he hid
  obtain ⟨hstored, -⟩ := mem_listing (List.mem_of_find?_eq_some hr)
  have hrecord := h.tidy.record?_of_mem hstored
  rw [hsame, hm] at hrecord
  obtain rfl := Option.some.inj hrecord
  exact ⟨m, hr, hsame, hfits, hadorned⟩

/-- However far a create has come, one that succeeds after it has its records. So what that one
leaves alone has been left alone all the time. -/
theorem Underway.others (h : Underway z₀ s z) (valid : s.Admissible)
    (hfounded : Founded { z with failures := [] } s t z') :
    (∀ id, id ∉ t.id.ids → z'.record? id = z₀.record? id) ∧
      ∀ name, name ≠ setName s → z'.weighting.lookup name = z₀.weighting.lookup name := by
  obtain ⟨placed, zg, hgrown, ⟨rest, hrest⟩, ht⟩ := h
  suffices hsub : placed.map (·.2) ⊆ t.id.ids by
    constructor
    · intro id hid
      have hplaced : id ∉ placed.map (·.2) := fun hmem => hid (hsub hmem)
      exact (hfounded.others id hid).trans
        ((ht.others id hplaced).trans (hgrown.others id hplaced))
    · intro name hname
      rw [hfounded.lookup_weighting hname, ht.switches name hname, hgrown.weighting]
  intro id hid
  obtain ⟨q, hq, rfl⟩ := List.mem_map.mp hid
  have hdistinct : (placed.map (·.1.value)).Nodup := by
    have hvalues := valid.values_distinct
    rw [← hrest, List.map_append, List.map_map] at hvalues
    exact (List.pairwise_append.mp hvalues).1
  have hsize := length_of_cores ht.cores
  obtain ⟨r, hr, hsame⟩ := hgrown.find? hreach₀ (hsize ▸ hreach) hdistinct hq
  have hlabels : zg.labels <+: z.labels := (labels_of_cores ht.cores) ▸ List.prefix_refl _
  obtain ⟨r', hr', hid'⟩ := find?_of_labels hlabels s q.1.value (hsize ▸ hreach) hreach hr
  have hmem : q.1 ∈ s.entries := by
    rw [← hrest]
    exact List.mem_append_left _ (List.mem_map_of_mem hq)
  obtain ⟨i, he⟩ := List.mem_iff_getElem?.mp hmem
  obtain ⟨id, hid⟩ := hfounded.exists_id he
  rw [← hsame, ← hid', ← hfounded.first i _ id he hid r' hr']
  exact List.mem_of_getElem? hid

end

/-- Where the listing has a record for every entry as the entry asks for it, there is nothing to
do. -/
theorem ensureAll_eq_done {known : List StoredRecord} {entries : List Entry}
    (h : ∀ e ∈ entries, ∃ r, known.find? (fun r => r.value == e.value) = some r ∧
      coreMatches r s e = true ∧ r.remark.getD "" = e.remarkText ∧ r.status = e.status) :
    ∃ found, ensureAll s known entries = .done found ∧
      applyAllExtras (found.zip entries) = .done () := by
  induction entries with
  | nil => exact ⟨[], rfl, rfl⟩
  | cons e rest ih =>
    obtain ⟨r, hfind, hmatches, hremark, hstatus⟩ := h e List.mem_cons_self
    obtain ⟨found, hfound, hextras⟩ := ih fun e' he' => h e' (List.mem_cons_of_mem _ he')
    have hensure : ensure s known e = .done (r.id, .of r) := by
      simp [ensure, hfind, hmatches]
    have happly : applyExtras r.id e (.of r) = .done () := by
      simp [applyExtras, Extras.of, hremark, hstatus]
    refine ⟨(r.id, .of r) :: found, ?_, ?_⟩
    · rw [ensureAll, hensure, Dialogue.done_bind, hfound]
      rfl
    · rw [List.zip_cons_cons, applyAllExtras, happly, Dialogue.done_bind, hextras]

theorem needed_of_looks {preflight : Bool} {c : Call} (h : c.looks = true) :
    Needed preflight s c.kind := by
  cases c with
  | listRecords name query request => exact .records
  | describeRecord id => exact .record
  | listWeightedHosts name host request => exact .hosts
  | _ => cases h

theorem only_each {α : Type} {step : α → Operation Unit} {items : List α} {p : Call → Prop}
    (h : ∀ x ∈ items, (step x).Only p) : (each step items).Only p := by
  induction items with
  | nil => trivial
  | cons x rest ih =>
    exact (h x List.mem_cons_self).bind fun _ => ih fun y hy => h y (List.mem_cons_of_mem _ hy)

/-- Where no remark or status is missing, a create only makes the calls that every create makes. -/
theorem only_finish {found : List (String × Extras)} (preflight : Bool)
    (hextras : applyAllExtras (found.zip s.entries) = .done ()) :
    (finish s found).Only fun c => Needed preflight s c.kind := by
  have hweigh : (weighGroup s (found.map (·.1))).Only fun c => Needed preflight s c.kind := by
    unfold weighGroup
    split
    · rename_i hon
      refine (only_attempt (.switch hon) _).bind fun _ => ?_
      rw [weighAll_eq]
      refine only_each fun x hx => ?_
      cases hown : ownWeight x.2 with
      | none => trivial
      | some w =>
        have hne : x.2.weight ≠ 0 := by
          intro hzero
          rw [ownWeight_eq_none_iff.mpr hzero] at hown
          cases hown
        exact only_attempt (.weight hon (List.of_mem_zip hx).2 hne) _
    · trivial
  unfold finish
  rw [hextras]
  exact hweigh.bind fun _ => ((looks_resourceId _).bind fun id => looks_readBack id s).mono
    fun c hc => needed_of_looks hc

/-- A dialogue that does not write leaves the zone as it is all along. -/
theorem ensures_of_reads {ε α : Type} {d : Dialogue ε α} (h : d.Reads) (z : Zone) :
    d.Ensures remote (fun _ z' => z' = z) (fun _ z' => z' = z) (fun _ z' => z' = z) z := by
  induction d with
  | done a => rfl
  | fail e => rfl
  | ask c next ih =>
    have hsame : (remote.answer c z).2 = z := answer_of_reads h.1
    rw [Dialogue.Ensures, hsame]
    exact ⟨rfl, ih _ (h.2 _)⟩

theorem lookup_eq_none_of_subset {failures failures' : List (ActionKind × ServiceError)}
    (hsub : failures ⊆ failures') {k : ActionKind} (h : failures'.lookup k = none) :
    failures.lookup k = none := by
  rw [List.lookup_eq_none_iff] at h ⊢
  exact fun x hx => h x (hsub hx)

/-- Once nothing is made to fail any more, a create succeeds. -/
theorem Tidy.exists_founded (tidy : z.Tidy) (hdomains : ∀ r ∈ z.records, r.domain = s.domain)
    (hreach : z.records.length ≤ walkReach) (preflight : Bool) (valid : s.fault? = none)
    (hdomain : s.domain = domain) :
    ∃ t z', (create preflight s).run remote { z with failures := [] } = (.ok t, z') ∧
      Founded { z with failures := [] } s t z' := by
  have tidy' : ({ z with failures := [] } : Zone).Tidy := ⟨tidy.ids_nodup, tidy.ids_numbered⟩
  have hdomains' : ∀ r ∈ ({ z with failures := [] } : Zone).records, r.domain = s.domain :=
    hdomains
  exact WeightedDns.Zone.exists_founded hdomains' hreach tidy' rfl preflight valid hdomain

/-- Creating the set again finds its records, as long as no more calls are made to fail: it gives
the same set, which the zone then holds, and nothing of a record is written but its weight. -/
def Repeats (preflight : Bool) (s : RecordSet) (t : TrackedSet) (z : Zone) : Prop :=
  ∀ failures, failures ⊆ z.failures →
    (∃ t' z', (create preflight s).run remote { z with failures } = (.ok t', z') ∧
      t'.id = t.id ∧ z'.Holds s t') ∧
    ∀ x ∈ (create preflight s).steps remote { z with failures },
      x.1.kind ≠ .addRecord ∧ x.1.kind ≠ .changeRecord ∧ x.1.kind ≠ .setRemark ∧
        x.1.kind ≠ .setStatus ∧ x.1.kind ≠ .deleteRecord

/-- A set is held all the same where calls are made to fail that reading it does not make. -/
theorem Holds.failing (h : Holds z s t) (calm : z.failures = [])
    {failures : List (ActionKind × ServiceError)}
    (hallows : ∀ c : Call, c.looks = true → failures.lookup c.kind = none) :
    Holds { z with failures } s t where
  record := h.record
  opened := h.opened
  read := by
    have hcalm : ({ z with failures := [] } : Zone) = z := by rw [← calm]
    have hnone : ∀ x ∈ (read? t.id s.domain).steps remote { z with failures := [] },
        failures.lookup x.1.kind = none := fun x hx =>
      hallows x.1 (((looks_read? t.id s.domain).ensures remote _).steps x hx)
    rw [run_failing hnone, hcalm, h.read]

section

variable (h : Founded z₀ s t z) (valid : s.fault? = none)
  (hreach₀ : z₀.records.length ≤ walkReach) (hreach : z.records.length ≤ walkReach)
include h valid hreach₀ hreach

/-- After a create that has succeeded, another one only makes the calls that every create makes. -/
theorem Founded.needed (preflight : Bool) (failures : List (ActionKind × ServiceError)) :
    ∀ x ∈ (create preflight s).steps remote { z with failures }, Needed preflight s x.1.kind := by
  have admissible := RecordSet.fault?_eq_none_iff.mp valid
  obtain ⟨found, hfound, hextras⟩ : ∃ found, ensureAll s (z.listing s) s.entries = .done found ∧
      applyAllExtras (found.zip s.entries) = .done () := by
    refine ensureAll_eq_done fun e he => ?_
    obtain ⟨i, hi⟩ := List.mem_iff_getElem?.mp he
    obtain ⟨id, hid⟩ := h.exists_id hi
    obtain ⟨r, hfind, -, hfits, hadorned⟩ := h.find? hreach₀ hreach admissible hi hid
    exact ⟨r, hfind, hfits.coreMatches, hadorned.remark, hadorned.status⟩
  have hensures : (create preflight s).Ensures remote (fun c _ => Needed preflight s c.kind)
      (fun _ _ => True) (fun _ _ => True) { z with failures } := by
    rw [create_eq valid, Dialogue.ensures_bind]
    have hlookUp : (lookUp preflight s).Only fun c => Needed preflight s c.kind :=
      only_lookUp .domain
    refine ((hlookUp.ensures remote _).and (ensures_of_reads (only_lookUp fun _ => rfl) _)).mono
      (fun _ _ hc => hc.1) ?_ fun _ _ _ => trivial
    rintro _ z₁ ⟨-, rfl⟩
    rw [Dialogue.ensures_bind]
    have hlisted : (listed s).Only fun c => Needed preflight s c.kind := by
      have hlooks : (listed s).Looks :=
        ((looks_recordsFrom _ _ _ _).mapError _).bind fun _ => trivial
      exact hlooks.mono fun c hc => needed_of_looks hc
    have hknown : (listed s).Ensures remote (fun _ _ => True)
        (fun known z' => known = z.listing s ∧ z' = { z with failures }) (fun _ _ => True)
        { z with failures } :=
      ensures_listed (.inr fun _ _ => trivial) (fun _ _ => trivial) ⟨rfl, rfl⟩
    refine ((hlisted.ensures remote _).and hknown).mono (fun _ _ hc => hc.1) ?_
      fun _ _ _ => trivial
    rintro known z₂ ⟨-, rfl, rfl⟩
    rw [hfound, Dialogue.done_bind]
    exact (only_finish preflight hextras).ensures remote _
  exact hensures.steps

/-- Another create takes the records that it finds, which are those that have been made. -/
theorem Founded.id_eq {t' : TrackedSet} {z' : Zone}
    (h' : Founded { z with failures := [] } s t' z') : t'.id = t.id := by
  have admissible := RecordSet.fault?_eq_none_iff.mp valid
  have hids : t'.id.ids = t.id.ids := by
    refine List.ext_getElem? fun i => ?_
    by_cases hlt : i < s.entries.length
    · have he := List.getElem?_eq_getElem hlt
      obtain ⟨id, hid⟩ := h.exists_id he
      obtain ⟨id', hid'⟩ := h'.exists_id he
      obtain ⟨r, hfind, hsame, -⟩ := h.find? hreach₀ hreach admissible he hid
      rw [hid', hid, h'.first i _ id' he hid' r hfind, hsame]
    · have hsize := h.size
      have hsize' := h'.size
      rw [List.getElem?_eq_none (by omega), List.getElem?_eq_none (by omega)]
  exact congrArg ResourceId.mk hids

theorem Founded.repeats {preflight : Bool} (hall : ∀ r ∈ z₀.records, r.domain = s.domain)
    (hdomain : s.domain = domain)
    (hallows : ∀ k, Needed preflight s k → z₀.failures.lookup k = none) :
    Repeats preflight s t z := by
  have hdomains := h.domains hall
  intro failures hsub
  rw [h.failures] at hsub
  constructor
  · have hnone : ∀ x ∈ (create preflight s).steps remote { z with failures := [] },
        failures.lookup x.1.kind = none := fun x hx =>
      lookup_eq_none_of_subset hsub (hallows _ (h.needed valid hreach₀ hreach preflight [] x hx))
    obtain ⟨t', z', hrun, hfounded⟩ :=
      h.tidy.exists_founded hdomains hreach preflight valid hdomain
    have hholds : Holds z' s t' := hfounded.standing.holds hfounded.failures hfounded.opened
    refine ⟨t', { z' with failures }, ?_, h.id_eq valid hreach₀ hreach hfounded,
      hholds.failing hfounded.failures ?_⟩
    · rw [run_failing hnone, hrun]
    · exact fun c hlooks => lookup_eq_none_of_subset hsub (hallows _ (needed_of_looks hlooks))
  · intro x hx
    have hneeded := h.needed valid hreach₀ hreach preflight failures x hx
    refine ⟨?_, ?_, ?_, ?_, ?_⟩ <;> intro hkind <;> rw [hkind] at hneeded <;> cases hneeded

end

/-- A create that was stopped at any call can be made again: while nothing fails, it succeeds with
every entry as it is configured, and the zone holds the set. Over both attempts, records have been
added exactly for the entries that none had been stored for, and other records and switches are as
they were. And after a create that has succeeded, another one is the same set and does not write
more of the records than their weights. -/
theorem create_repeats (h : z.Reachable) (hall : ∀ r ∈ z.records, r.domain = domain)
    (hreach : z.records.length ≤ 49950) (preflight : Bool) (valid : s.fault? = none)
    (hdomain : s.domain = domain) :
    (∀ (failure : ServiceError) (n : Nat) (stopped : Zone),
      stopped = ((create preflight s).run (remote.cutOff failure) (z, n)).2.1 →
      ∃ t z', (create preflight s).run remote { stopped with failures := [] } = (.ok t, z') ∧
        t.id.ids.Nodup ∧ t.id.ids.length = s.entries.length ∧
        t.config.entries.length = s.entries.length ∧
        (∀ (i : Nat) (e : Entry), s.entries[i]? = some e →
          ∃ b, t.config.entries[i]? = some b ∧ b.value = e.value ∧ b.ttl = e.ttl ∧
            b.status = e.status ∧ b.remarkText = e.remarkText ∧
            (s.weighting.isOn = true → e.weight ≠ 0 → b.weight = e.weight)) ∧
        z'.Holds s t ∧
        z'.added = z.added ++ (s.entries.filter fun e => !z.has s e).map (.of s) ∧
        (∀ id, id ∉ t.id.ids → z'.record? id = z.record? id) ∧
        (∀ name, name ≠ setName s → z'.weighting.lookup name = z.weighting.lookup name) ∧
        Repeats preflight s t z') ∧
    ∀ t z', (create preflight s).run remote z = (.ok t, z') → Repeats preflight s t z' := by
  have admissible := RecordSet.fault?_eq_none_iff.mp valid
  have hbound := admissible.entries_bounded
  have hfits : 49950 + RecordSet.entryLimit ≤ walkReach := by decide
  have hreachz : z.records.length ≤ walkReach := by omega
  rw [← hdomain] at hall
  constructor
  · rintro failure n stopped rfl
    have hleft := underway_cutOff h.tidy preflight s failure n
    have hhalfway := hleft.halfway hall hreachz h.tidy admissible
    have hcounted := (ensures_counted (create preflight s) z).cutOff (Nat.le_refl _) failure n
    generalize ((create preflight s).run (remote.cutOff failure) (z, n)).2.1 = stopped
      at hleft hhalfway hcounted
    have hreachs : stopped.records.length ≤ walkReach := by
      have := hhalfway.length
      omega
    obtain ⟨t, z', hrun, hfounded⟩ :=
      hhalfway.tidy.exists_founded hhalfway.domains hreachs preflight valid hdomain
    have hdomains : ∀ r ∈ ({ stopped with failures := [] } : Zone).records, r.domain = s.domain :=
      hhalfway.domains
    have hadded : z'.added = z.added ++ (s.entries.filter fun e => !z.has s e).map (.of s) :=
      (hfounded.added_eq hdomains hreachs).trans hhalfway.added
    -- no more records have come than the entries that had none
    have hreach' : z'.records.length ≤ walkReach := by
      have hsince : z'.records.length + stopped.added.length ≤
          stopped.records.length + z'.added.length :=
        (ensures_counted _ { stopped with failures := [] }).post_of_run hrun
      have hlength := congrArg List.length hadded
      have hfilter : (s.entries.filter fun e => !z.has s e).length ≤ s.entries.length :=
        List.length_filter_le _ _
      rw [List.length_append, List.length_map] at hlength
      unfold Counted at hcounted
      omega
    have hstanding := hfounded.standing
    have hholds := hstanding.holds hfounded.failures hfounded.opened
    obtain ⟨hothers, hswitches⟩ := hleft.others hreachz hreachs admissible hfounded
    refine ⟨t, z', hrun, hfounded.nodup, hfounded.size,
      hstanding.tracks.size.symm.trans hfounded.size, ?_, hholds, hadded, hothers, hswitches,
      hfounded.repeats valid hreachs hreach' hdomains hdomain fun _ _ => rfl⟩
    intro i e he
    obtain ⟨b, hb, hvalue, httl, hstatus, hremark, hweight⟩ := hstanding.entry he
    exact ⟨b, hb, hvalue, httl, hstatus, hremark, hweight hreach'⟩
  · intro t z' hrun
    have hfounded := founded_of_run h.tidy hrun
    have hreach' : z'.records.length ≤ walkReach := by
      have := hfounded.length
      omega
    exact hfounded.repeats valid hreachz hreach' hall hdomain fun k hk =>
      (relies_create valid hk z h.tidy).post_of_run hrun

/-- The first attempt is stopped when it is to set the first weight. After the second one, the first
record is stored with its weight, its remark and its status. -/
theorem widened_repeats : ∃ t z', (create true widened).run remote
    { ((create true widened).run (remote.cutOff ⟨provider, .timeout "connection"⟩)
        (pair, 5)).2.1 with failures := [] } = (.ok t, z') ∧
    (∃ id r, t.id.ids[0]? = some id ∧ z'.record? id = some r ∧ r.value = "192.0.2.2" ∧
      r.ttl = 300 ∧ r.weight = some 10 ∧ r.status = .disabled ∧ r.remark.getD "" = "spare") ∧
    z'.isOpen (setName widened) = true ∧
    (read? t.id "example.com").run remote z' = (.ok (some t), z') ∧
    z'.added = [.of widened ⟨"192.0.2.3", 600, 20, .enabled, none⟩] ∧
    ("1000" ∉ t.id.ids → z'.record? "1000" = pair.record? "1000") ∧
    Repeats true widened t z' := by
  have hall : ∀ r ∈ pair.records, r.domain = domain := by decide
  obtain ⟨t, z', hrun, -, -, -, -, hholds, hadded, hothers, -, hrepeats⟩ :=
    (create_repeats (s := widened) pair_reachable hall (by decide) true (by decide) rfl).1
      ⟨provider, .timeout "connection"⟩ 5 _ rfl
  obtain ⟨id, r, hid, hr, hconfigured⟩ := hholds.record 0 _ rfl
  exact ⟨t, z', hrun,
    ⟨id, r, hid, hr, hconfigured.value, hconfigured.ttl, hconfigured.weight rfl (by decide),
      hconfigured.status, hconfigured.remark⟩,
    hholds.opened rfl, hholds.read, hadded, hothers "1000", hrepeats⟩

end Zone

end WeightedDns
