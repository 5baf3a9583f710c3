import WeightedDns.Proofs.Zone.Later
import WeightedDns.Proofs.Zone.Reading

/-!
# Weight, remark and status

What creating and updating do to a record besides its core is one step: set a weight now or keep
it until weighting is on, then set a remark and a status, each only where it is asked for.
`runReconcile_eq`, `runCreate_eq` and `applyExtras_eq` show this step in the operations, and
`ensures_touch` says what it leaves of a zone: the cores of all records, all of every other
record, the switches and the failures.
-/

namespace WeightedDns

open Lifecycle

namespace Lifecycle

/-- Set a remark and a status where they are asked for. -/
def dress (id : String) (remark : Option String) (status : Option Switch) : Operation Unit := do
  whenSome remark (setRemark id)
  whenSome status (setStatus id)

/-- Set a weight now or keep it for later, then a remark and a status, where they are asked
for. -/
def touch (deferred : Bool) (id : String) (weight : Option UInt32) (remark : Option String)
    (status : Option Switch) (p : Progress) : Operation Progress := do
  let p ←
    match weight with
    | some w => weigh deferred id w p
    | none => pure p
  dress id remark status
  pure p

/-- The remark that an entry asks for beyond what a record carries. -/
def missingRemark (e : Entry) (carried : Extras) : Option String :=
  if e.remarkText != carried.remark then some e.remarkText else none

/-- The status that an entry asks for beyond what a record carries. -/
def missingStatus (e : Entry) (carried : Extras) : Option Switch :=
  if e.status != carried.status then some e.status else none

/-- A record that comes to an entry gets the weight of the entry, where weighting is to be on and
the weight is not zero. -/
theorem startingWeight_eq_some {s : RecordSet} {e : Entry} {weight : UInt32}
    (h : startingWeight s e = some weight) :
    weight = e.weight ∧ s.weighting.isOn = true ∧ e.weight ≠ 0 := by
  unfold startingWeight at h
  split at h
  · rename_i hon
    simp only [Bool.and_eq_true, bne_iff_ne] at hon
    exact ⟨(Option.some.inj h).symm, hon.1, hon.2⟩
  · cases h

theorem missingRemark_eq_some {e : Entry} {carried : Extras} {remark : String}
    (h : missingRemark e carried = some remark) : remark = e.remarkText := by
  unfold missingRemark at h
  split at h
  · exact (Option.some.inj h).symm
  · cases h

theorem missingStatus_eq_some {e : Entry} {carried : Extras} {status : Switch}
    (h : missingStatus e carried = some status) : status = e.status := by
  unfold missingStatus at h
  split at h
  · exact (Option.some.inj h).symm
  · cases h

/-- What is missing makes up for what is carried. -/
theorem missingRemark_getD (e : Entry) (carried : Extras) :
    (missingRemark e carried).getD carried.remark = e.remarkText := by
  unfold missingRemark
  split
  · rfl
  · rename_i hsame
    exact (by simpa using hsame : e.remarkText = carried.remark).symm

theorem missingStatus_getD (e : Entry) (carried : Extras) :
    (missingStatus e carried).getD carried.status = e.status := by
  unfold missingStatus
  split
  · rfl
  · rename_i hsame
    exact (by simpa using hsame : e.status = carried.status).symm

theorem applyExtras_eq (id : String) (e : Entry) (carried : Extras) :
    applyExtras id e carried = dress id (missingRemark e carried) (missingStatus e carried) := by
  unfold applyExtras dress missingRemark missingStatus
  cases e.remarkText != carried.remark <;> cases e.status != carried.status <;> rfl

theorem runReconcile_eq (desired : RecordSet) (deferred : Bool) (e : Entry) (index : Nat)
    (id : String) (checkCore : Bool) (weight : Option UInt32) (remark : Option String)
    (status : Option Switch) (p : Progress) :
    runReconcile desired deferred e index id checkCore weight remark status p =
      reconcileCore desired e id checkCore >>= fun replaced =>
        match replaced with
        | none => touch deferred id weight remark status p
        | some newId =>
          touch deferred newId (startingWeight desired e) (missingRemark e .fresh)
            (missingStatus e .fresh) { p with ids := p.ids.set index newId } := by
  unfold runReconcile touch
  congr 1
  funext replaced
  cases replaced with
  | none => cases weight <;> simp only [dress, Dialogue.bind_assoc] <;> rfl
  | some newId =>
    cases startingWeight desired e <;>
      simp only [dress, Dialogue.bind_assoc, Option.isSome_some, if_true] <;> rfl

theorem runCreate_eq (desired : RecordSet) (deferred : Bool) (e : Entry) (p : Progress) :
    runCreate desired deferred e p =
      (match p.known with
        | some known => pure known
        | none => listed desired) >>= fun known =>
      ensure desired known e >>= fun found =>
      touch deferred found.1 (startingWeight desired e) (missingRemark e found.2)
        (missingStatus e found.2) { p with known := some known } >>= fun p =>
      pure { p with ids := p.ids ++ [found.1] } := by
  unfold runCreate touch
  cases p.known <;> cases startingWeight desired e <;>
    simp only [applyExtras_eq, Dialogue.bind_assoc] <;> rfl

end Lifecycle

namespace Zone

/-! ## Zones that differ in weight, remark and status of one record -/

/-- The second zone differs from the first at most in weight, remark and status of the record
with an ID, and in notes of calls that add no record. -/
structure Touched (id : String) (z z' : Zone) : Prop where
  tidy : z'.Tidy
  cores : z'.cores = z.cores
  others : ∀ id', id' ≠ id → z'.record? id' = z.record? id'
  weighting : z'.weighting = z.weighting
  failures : z'.failures = z.failures
  nextId : z'.nextId = z.nextId
  journal : z.journal <+: z'.journal
  added : z'.added = z.added

theorem Touched.refl {z : Zone} (tidy : z.Tidy) (id : String) : Touched id z z :=
  ⟨tidy, rfl, fun _ _ => rfl, rfl, rfl, rfl, List.prefix_refl _, rfl⟩

theorem Touched.trans {id : String} {z₁ z₂ z₃ : Zone} (h : Touched id z₁ z₂)
    (h' : Touched id z₂ z₃) : Touched id z₁ z₃ where
  tidy := h'.tidy
  cores := h'.cores.trans h.cores
  others id' hid := (h'.others id' hid).trans (h.others id' hid)
  weighting := h'.weighting.trans h.weighting
  failures := h'.failures.trans h.failures
  nextId := h'.nextId.trans h.nextId
  journal := h.journal.trans h'.journal
  added := h'.added.trans h.added

theorem id_eq_of_core_eq {r r' : StoredRecord} (h : r'.core = r.core) : r'.id = r.id := by
  have hid := congrArg StoredRecord.id h
  exact hid

theorem touched_edit {z : Zone} (tidy : z.Tidy) (id : String) {f : StoredRecord → StoredRecord}
    (keeps : ∀ r, (f r).core = r.core) {c : Call} (hc : c.added? = none) :
    Touched id z ((z.edit id f).note c) := by
  have hid : ∀ r, (f r).id = r.id := fun r => id_eq_of_core_eq (keeps r)
  refine ⟨(tidy.edit hid).note c, ?_, ?_, rfl, rfl, rfl, List.prefix_append _ _, ?_⟩
  · simp only [cores, note_records, edit, List.map_map]
    refine List.map_congr_left ?_
    intro r _
    show (if r.id = id then f r else r).core = r.core
    split
    · exact keeps r
    · rfl
  · intro id' hne
    rw [note_record?, record?_edit z hid, if_neg hne]
  · rw [added_note, hc, Option.toList_none, List.append_nil]
    rfl

theorem record?_note_edit {z : Zone} {id : String} {r : StoredRecord}
    (h : z.record? id = some r) {f : StoredRecord → StoredRecord}
    (keeps : ∀ r, (f r).id = r.id) (c : Call) :
    ((z.edit id f).note c).record? id = some (f r) := by
  rw [note_record?, record?_edit z keeps, if_pos rfl, h]
  rfl

/-- Equal cores have records of equal cores under every ID. -/
theorem core_of_cores {z z' : Zone} (h : z'.cores = z.cores) (id : String) :
    (z'.record? id).map (·.core) = (z.record? id).map (·.core) := by
  have hfind : ∀ z : Zone,
      (z.record? id).map (·.core) = z.cores.find? (fun r => r.id == id) := by
    intro z
    rw [record?, cores, List.find?_map]
    rfl
  rw [hfind, hfind, h]

theorem length_of_cores {z z' : Zone} (h : z'.cores = z.cores) :
    z'.records.length = z.records.length := by
  have := congrArg List.length h
  simpa [cores] using this

/-- A record that is there has its core in any zone of the same cores. -/
theorem exists_record_of_cores {z z' : Zone} (h : z'.cores = z.cores) {id : String}
    {r : StoredRecord} (hr : z.record? id = some r) :
    ∃ r', z'.record? id = some r' ∧ r'.core = r.core := by
  have hcore := core_of_cores h id
  rw [hr, Option.map_some, Option.map_eq_some_iff] at hcore
  exact hcore

theorem isSome_of_cores {z z' : Zone} (h : z'.cores = z.cores) (id : String) :
    (z'.record? id).isSome = (z.record? id).isSome := by
  have hcore := congrArg Option.isSome (core_of_cores h id)
  rwa [Option.isSome_map, Option.isSome_map] at hcore

theorem Later.touched {z₀ z z' : Zone} {id : String} (h : Later z₀ z) (ht : Touched id z z') :
    Later z₀ z' where
  tidy := ht.tidy
  nextId := Nat.le_trans h.nextId (Nat.le_of_eq ht.nextId.symm)
  came id' hnone hsome := by
    rw [isSome_of_cores ht.cores] at hsome
    rw [ht.nextId]
    exact h.came id' hnone hsome
  journal := h.journal.trans ht.journal
  failures := ht.failures.trans h.failures

/-! ## The rule -/

variable {z : Zone} {inv : Call → Zone → Prop} {err : LifecycleError → Zone → Prop}

/-- Setting a weight touches a record, which has it from then on. -/
theorem ensures_setWeight_touched {id : String} {weight : UInt32} {post : Unit → Zone → Prop}
    (tidy : z.Tidy) (sure : z.failures = [] ∨ ∀ e z', err e z')
    (hinv : ∀ c z', Touched id z z' → inv c z') (hmissing : z.record? id = none → ∀ e, err e z)
    (hclosed : ∀ r, z.record? id = some r → z.isOpen (fullName r.host r.domain) = false →
      ∀ e, err e z)
    (hpost : ∀ r z', z.record? id = some r → Touched id z z' →
      z'.record? id = some { r with weight := some weight } → post () z') :
    (setWeight id weight).Ensures remote inv post err z := by
  refine ensures_setWeight tidy sure (fun c => hinv c z (.refl tidy id)) hmissing hclosed ?_
  intro r hr f hf
  have ht := touched_edit tidy id (f := f) (fun r => by rw [hf]; rfl)
    (c := .setWeight id weight) rfl
  refine ⟨fun c => hinv c _ ht, hpost r _ hr ht ?_⟩
  rw [record?_note_edit hr (fun r => by rw [hf]), hf]

theorem ensures_whenSome {α σ : Type} {remote : Remote σ} {inv : Call → σ → Prop}
    {err : LifecycleError → σ → Prop} {post : Unit → σ → Prop} {s : σ} {a : Option α}
    {f : α → Operation Unit} (hnone : a = none → post () s)
    (hsome : ∀ x, a = some x → (f x).Ensures remote inv post err s) :
    (whenSome a f).Ensures remote inv post err s := by
  cases a with
  | none => exact hnone rfl
  | some x => exact hsome x rfl

/-- What dressing leaves of the record itself. -/
structure Dressed (remark : Option String) (status : Option Switch) (r r' : StoredRecord) :
    Prop where
  core : r'.core = r.core
  weight : r'.weight = r.weight
  remark : r'.remark.getD "" = remark.getD (r.remark.getD "")
  status : r'.status = status.getD r.status

theorem ensures_dress {id : String} {remark : Option String} {status : Option Switch}
    {post : Unit → Zone → Prop} (tidy : z.Tidy) (sure : z.failures = [] ∨ ∀ e z', err e z')
    (hinv : ∀ c z', Touched id z z' → inv c z')
    (hmissing : z.record? id = none → ∀ e z', err e z')
    (hpost : ∀ z', Touched id z z' → (∀ r, z.record? id = some r →
      ∃ r', z'.record? id = some r' ∧ Dressed remark status r r') → post () z') :
    (dress id remark status).Ensures remote inv post err z := by
  have hrefl := Touched.refl tidy id
  -- the status comes last, in a zone where the remark has been seen to
  have hstatus : ∀ z₁, Touched id z z₁ → (∀ r, z.record? id = some r →
      ∃ r₁, z₁.record? id = some r₁ ∧ Dressed remark none r r₁) →
      (whenSome status (setStatus id)).Ensures remote inv post err z₁ := by
    intro z₁ h₁ hr₁
    refine ensures_whenSome ?_ ?_
    · rintro rfl
      exact hpost z₁ h₁ hr₁
    · rintro status rfl
      refine ensures_setStatus h₁.tidy ?_ (fun c => hinv c z₁ h₁) ?_ ?_
      · rw [h₁.failures]
        exact sure
      · intro hnone e
        cases hr : z.record? id with
        | none => exact hmissing hr e z₁
        | some r =>
          obtain ⟨r₁, h, _⟩ := hr₁ r hr
          rw [hnone] at h
          cases h
      · intro r₁ h f hf
        have h₂ := h₁.trans (touched_edit h₁.tidy id (f := f) (fun r => by rw [hf]; rfl)
          (c := .setStatus id status) rfl)
        refine ⟨fun c => hinv c _ h₂, hpost _ h₂ ?_⟩
        intro r hr
        obtain ⟨r₁', h', hd⟩ := hr₁ r hr
        obtain rfl : r₁' = r₁ := Option.some.inj (h'.symm.trans h)
        refine ⟨f r₁', record?_note_edit h (fun r => by rw [hf]) _, ?_⟩
        rw [hf]
        exact ⟨hd.core, hd.weight, hd.remark, rfl⟩
  unfold dress
  rw [Dialogue.ensures_bind]
  refine ensures_whenSome ?_ ?_
  · rintro rfl
    exact hstatus z hrefl fun r hr => ⟨r, hr, rfl, rfl, rfl, rfl⟩
  · rintro remark rfl
    refine ensures_setRemark tidy sure (fun c => hinv c z hrefl) (fun h e => hmissing h e z) ?_
    intro r hr f hf
    have h₁ := touched_edit tidy id (f := f) (fun r => by rw [hf]; rfl)
      (c := .setRemark id remark) rfl
    refine ⟨fun c => hinv c _ h₁, hstatus _ h₁ ?_⟩
    intro r' hr'
    obtain rfl : r' = r := Option.some.inj (hr'.symm.trans hr)
    refine ⟨f r', record?_note_edit hr (fun r => by rw [hf]) _, ?_⟩
    rw [hf]
    refine ⟨rfl, rfl, ?_, rfl⟩
    show (if remark = "" then none else some remark).getD "" = remark
    split
    · rename_i h
      exact h.symm
    · rfl

/-- What touching leaves of the record itself. -/
structure TouchedTo (deferred : Bool) (weight : Option UInt32) (remark : Option String)
    (status : Option Switch) (r r' : StoredRecord) : Prop where
  core : r'.core = r.core
  weight : r'.weight = if deferred then r.weight else weight.or r.weight
  remark : r'.remark.getD "" = remark.getD (r.remark.getD "")
  status : r'.status = status.getD r.status

/-- The weights that wait after touching a record. -/
def waiting (deferred : Bool) (id : String) (weight : Option UInt32) : List (String × UInt32) :=
  if deferred then (weight.map (id, ·)).toList else []

theorem ensures_touch {deferred : Bool} {id : String} {weight : Option UInt32}
    {remark : Option String} {status : Option Switch} {p : Progress}
    {post : Progress → Zone → Prop} (tidy : z.Tidy)
    (sure : z.failures = [] ∨ ∀ e z', err e z')
    (hinv : ∀ c z', Touched id z z' → inv c z')
    (hmissing : z.record? id = none → ∀ e z', err e z')
    (hclosed : ∀ w r, deferred = false → weight = some w → z.record? id = some r →
      z.isOpen (fullName r.host r.domain) = false → ∀ e z', err e z')
    (hpost : ∀ z', Touched id z z' → (∀ r, z.record? id = some r →
      ∃ r', z'.record? id = some r' ∧ TouchedTo deferred weight remark status r r') →
      post { p with pending := p.pending ++ waiting deferred id weight } z') :
    (touch deferred id weight remark status p).Ensures remote inv post err z := by
  have hrefl := Touched.refl tidy id
  -- the weight comes first, and dressing starts from the zone that it leaves
  have hdress : ∀ z₁ p₁, Touched id z z₁ →
      p₁ = { p with pending := p.pending ++ waiting deferred id weight } →
      (∀ r, z.record? id = some r → ∃ r₁, z₁.record? id = some r₁ ∧
        TouchedTo deferred weight none none r r₁) →
      (dress id remark status >>= fun _ => pure p₁).Ensures remote inv post err z₁ := by
    intro z₁ p₁ h₁ hp₁ hr₁
    rw [Dialogue.ensures_bind]
    refine ensures_dress h₁.tidy ?_ (fun c z' h => hinv c z' (h₁.trans h)) ?_ ?_
    · rw [h₁.failures]
      exact sure
    · intro hnone e z'
      cases hr : z.record? id with
      | none => exact hmissing hr e z'
      | some r =>
        obtain ⟨r₁, h, _⟩ := hr₁ r hr
        rw [hnone] at h
        cases h
    · intro z' h' hr'
      rw [Dialogue.pure_eq, Dialogue.ensures_done, hp₁]
      refine hpost z' (h₁.trans h') ?_
      intro r hr
      obtain ⟨r₁, h, ht⟩ := hr₁ r hr
      obtain ⟨r', hr', hd⟩ := hr' r₁ h
      refine ⟨r', hr', hd.core.trans ht.core, hd.weight.trans ht.weight, ?_, ?_⟩
      · rw [hd.remark, ht.remark]
        rfl
      · rw [hd.status, ht.status]
        rfl
  unfold touch
  cases weight with
  | none =>
    refine hdress z p hrefl ?_ ?_
    · cases deferred <;> simp [waiting]
    · intro r hr
      exact ⟨r, hr, rfl, by cases deferred <;> rfl, rfl, rfl⟩
  | some w =>
    unfold weigh
    cases deferred with
    | true =>
      exact hdress z _ hrefl rfl fun r hr => ⟨r, hr, rfl, rfl, rfl, rfl⟩
    | false =>
      simp only [Bool.false_eq_true, if_false, Dialogue.bind_assoc]
      rw [Dialogue.ensures_bind]
      refine ensures_setWeight_touched tidy sure hinv (fun h e => hmissing h e z)
        (fun r hr hopen e => hclosed w r rfl rfl hr hopen e z) ?_
      intro r z₁ hr h₁ hr₁
      refine hdress z₁ p h₁ (by simp [waiting]) ?_
      intro r' hr'
      obtain rfl : r' = r := Option.some.inj (hr'.symm.trans hr)
      exact ⟨_, hr₁, rfl, rfl, rfl, rfl⟩

end Zone

end WeightedDns
