import WeightedDns.Proofs.Update.Loop
import WeightedDns.Proofs.Update.Matching

/-!
# Records that an update leaves alone

An update writes only to the records that are tracked, to records that it adds, and to records
that it takes over for an entry: those of the zone, host, type and value of the entry. Every other
record is left as it is by every single call (`update_spares`), whatever fails on the way.
-/

namespace WeightedDns

open Lifecycle

/-- Whether a set may take over a record for one of its entries. -/
def StoredRecord.Adoptable (s : RecordSet) (r : StoredRecord) : Prop :=
  r.domain = s.domain ∧ r.host = s.host ∧ r.type = s.type ∧ ∃ e ∈ s.entries, e.value = r.value

namespace Zone

/-- The records of `z₀` that are to be kept are in `z` as they were. -/
structure Spares (kept : StoredRecord → Prop) (z₀ z : Zone) : Prop where
  tidy : z.Tidy
  keeps : ∀ r ∈ z₀.records, kept r → z.record? r.id = some r

/-- No record that is to be kept has the ID. -/
def Loose (kept : StoredRecord → Prop) (z₀ : Zone) (id : String) : Prop :=
  ∀ r ∈ z₀.records, kept r → r.id ≠ id

variable {kept : StoredRecord → Prop} {z₀ z : Zone} {id : String}

namespace Spares

theorem refl (tidy : z₀.Tidy) : Spares kept z₀ z₀ :=
  ⟨tidy, fun _ hr _ => tidy.record?_of_mem hr⟩

theorem note (h : Spares kept z₀ z) (c : Call) : Spares kept z₀ (z.note c) :=
  ⟨h.tidy.note c, h.keeps⟩

theorem edit (h : Spares kept z₀ z) (loose : Loose kept z₀ id) {f : StoredRecord → StoredRecord}
    (keepsId : ∀ r, (f r).id = r.id) : Spares kept z₀ (z.edit id f) := by
  refine ⟨h.tidy.edit keepsId, ?_⟩
  intro r hr hkept
  rw [record?_edit z keepsId, if_neg (loose r hr hkept)]
  exact h.keeps r hr hkept

theorem remove (h : Spares kept z₀ z) (loose : Loose kept z₀ id) :
    Spares kept z₀ (z.remove id) := by
  refine ⟨h.tidy.remove id, ?_⟩
  intro r hr hkept
  rw [record?_remove, if_neg (loose r hr hkept)]
  exact h.keeps r hr hkept

/-- The ID of a new record is not that of a record to be kept. -/
theorem loose_freshId (h : Spares kept z₀ z) : Loose kept z₀ z.freshId := by
  intro r hr hkept heq
  have hnone := h.tidy.record?_freshId
  rw [← heq, h.keeps r hr hkept] at hnone
  cases hnone

theorem store (h : Spares kept z₀ z) (r : NewRecord) : Spares kept z₀ (z.store r) := by
  refine ⟨h.tidy.store r, ?_⟩
  intro s hs hkept
  rw [h.tidy.record?_store, if_neg (h.loose_freshId s hs hkept)]
  exact h.keeps s hs hkept

theorem touched (h : Spares kept z₀ z) (loose : Loose kept z₀ id) {z' : Zone}
    (ht : Touched id z z') : Spares kept z₀ z' := by
  refine ⟨ht.tidy, ?_⟩
  intro r hr hkept
  rw [ht.others r.id (loose r hr hkept)]
  exact h.keeps r hr hkept

theorem switched (h : Spares kept z₀ z) (name : String) (position : Bool) :
    Spares kept z₀ (z.switched name position) :=
  ⟨⟨h.tidy.ids_nodup, h.tidy.ids_numbered⟩, h.keeps⟩

end Spares

/-! ## Steps -/

/-- Every step of a dialogue spares the records to be kept, whatever it ends with. -/
def Sparing (kept : StoredRecord → Prop) (z₀ : Zone) {α : Type} (d : Operation α)
    (post : α → Zone → Prop) (z : Zone) : Prop :=
  d.Ensures remote (fun _ z' => Spares kept z₀ z') post (fun _ _ => True) z

theorem sparing_add (h : Spares kept z₀ z) (s : RecordSet) (e : Entry) :
    Sparing kept z₀ (add s e) (fun id z' => Spares kept z₀ z' ∧ Loose kept z₀ id) z := by
  refine ensures_add (.inr fun _ _ => trivial) (fun _ => h) (fun _ _ => trivial) ?_
  intro _ r _
  have hstored := (h.store r).note (.addRecord r)
  exact ⟨fun _ => hstored, hstored, h.loose_freshId⟩

theorem sparing_overwrite (h : Spares kept z₀ z) (loose : Loose kept z₀ id) (s : RecordSet)
    (e : Entry) : Sparing kept z₀ (overwrite s e id) (fun _ z' => Spares kept z₀ z') z := by
  refine ensures_overwrite h.tidy (.inr fun _ _ => trivial) (fun _ => h) (fun _ _ => trivial) ?_
  intro _ _ c _
  have hedited := (h.edit loose (f := .rewritten s e) fun _ => rfl).note c
  exact ⟨fun _ => hedited, hedited⟩

theorem sparing_touch (h : Spares kept z₀ z) (loose : Loose kept z₀ id) (deferred : Bool)
    (weight : Option UInt32) (remark : Option String) (status : Option Switch) (p : Progress) :
    Sparing kept z₀ (touch deferred id weight remark status p)
      (fun p' z' => Spares kept z₀ z' ∧
        p' = { p with pending := p.pending ++ waiting deferred id weight }) z := by
  refine ensures_touch h.tidy (.inr fun _ _ => trivial) (fun _ _ ht => h.touched loose ht)
    (fun _ _ _ => trivial) (fun _ _ _ _ _ _ _ _ => trivial) ?_
  intro z' ht _
  exact ⟨h.touched loose ht, rfl⟩

theorem sparing_deleteOne (h : Spares kept z₀ z) (loose : Loose kept z₀ id) :
    Sparing kept z₀ (deleteOne id) (fun _ z' => Spares kept z₀ z') z := by
  refine ensures_deleteOne (.inr fun _ _ => trivial) (fun _ => h) (fun _ => h) ?_
  intro _ _ _
  have hremoved := (h.remove loose).note (.deleteRecord id)
  exact ⟨fun _ => hremoved, hremoved⟩

/-! ## The progress of an update -/

/-- What has come about so far does not lead an update to a record that is to be kept. -/
structure Steady (kept : StoredRecord → Prop) (z₀ : Zone) (s : RecordSet) (p : Progress)
    (z : Zone) : Prop where
  spares : Spares kept z₀ z
  pending : ∀ q ∈ p.pending, Loose kept z₀ q.1
  known : ∀ known, p.known = some known → ∀ r ∈ known, (∃ e ∈ s.entries, e.value = r.value) →
    Loose kept z₀ r.id

section

variable {s : RecordSet} {p : Progress}

/-- Work on a record that may be changed keeps to the records that may. -/
theorem Steady.touch (h : Steady kept z₀ s p z) (loose : Loose kept z₀ id) (deferred : Bool)
    (weight : Option UInt32) (remark : Option String) (status : Option Switch) :
    Sparing kept z₀ (touch deferred id weight remark status p) (Steady kept z₀ s) z := by
  refine (sparing_touch h.spares loose deferred weight remark status p).weaken ?_
  rintro _ z' ⟨hspares, rfl⟩
  refine ⟨hspares, ?_, h.known⟩
  intro q hq
  rcases List.mem_append.mp hq with hq | hq
  · exact h.pending q hq
  · unfold waiting at hq
    split at hq
    · obtain ⟨w, _, rfl⟩ : ∃ w, weight = some w ∧ q = (id, w) := by
        cases weight <;> simp_all
      exact loose
    · simp at hq

theorem Steady.reconcile (h : Steady kept z₀ s p z) (loose : Loose kept z₀ id) (deferred : Bool)
    (e : Entry) (index : Nat) (checkCore : Bool) (weight : Option UInt32)
    (remark : Option String) (status : Option Switch) :
    Sparing kept z₀ (runReconcile s deferred e index id checkCore weight remark status p)
      (Steady kept z₀ s) z := by
  unfold Sparing
  rw [runReconcile_eq, Dialogue.ensures_bind]
  refine ensures_reconcileCore h.spares.tidy (.inr fun _ _ => trivial) (fun _ => h.spares)
    ?_ ?_ ?_
  · intro _ _ _
    exact h.touch loose deferred weight remark status
  · intro _ _ _ c
    have hedited := (h.spares.edit loose (f := .rewritten s e) fun _ => rfl).note c
    have hsteady : Steady kept z₀ s p _ := ⟨hedited, h.pending, h.known⟩
    exact ⟨fun _ => hedited, hsteady.touch loose deferred weight remark status⟩
  · intro _
    -- the record is gone, and from here on the work is on the one that replaces it
    refine (sparing_add h.spares s e).weaken ?_
    rintro newId z' ⟨hspares, hloose⟩
    have hsteady : Steady kept z₀ s { p with ids := p.ids.set index newId } z' :=
      ⟨hspares, h.pending, h.known⟩
    exact hsteady.touch hloose deferred _ _ _

theorem Steady.create (h : Steady kept z₀ s p z)
    (hadopt : ∀ r ∈ z₀.records, kept r → ¬ r.Adoptable s) (deferred : Bool) {e : Entry}
    (he : e ∈ s.entries) :
    Sparing kept z₀ (runCreate s deferred e p) (Steady kept z₀ s) z := by
  -- a record that is taken over is loose by what is known of the listing, and a new one is fresh
  have hensured : ∀ known, (∀ r ∈ known, (∃ e ∈ s.entries, e.value = r.value) →
      Loose kept z₀ r.id) → Sparing kept z₀ (ensure s known e)
        (fun found z' => Spares kept z₀ z' ∧ Loose kept z₀ found.1) z := by
    intro known hknown
    have hfound : ∀ r, known.find? (fun r => r.value == e.value) = some r →
        Loose kept z₀ r.id := by
      intro r hr
      have hvalue : r.value = e.value := by simpa using List.find?_some hr
      exact hknown r (List.mem_of_find?_eq_some hr) ⟨e, he, hvalue.symm⟩
    refine ensures_ensure ?_ ?_ ?_
    · intro r hr _
      exact ⟨h.spares, hfound r hr⟩
    · intro r hr _
      refine (sparing_overwrite h.spares (hfound r hr) s e).weaken ?_
      intro _ z' hspares
      exact ⟨hspares, hfound r hr⟩
    · intro _
      exact sparing_add h.spares s e
  -- the rest is the same whether the listing has been asked for already or not
  have hrest : ∀ known, (∀ r ∈ known, (∃ e ∈ s.entries, e.value = r.value) →
      Loose kept z₀ r.id) → Sparing kept z₀ (ensure s known e >>= fun found =>
        Lifecycle.touch deferred found.1 (startingWeight s e) (missingRemark e found.2)
          (missingStatus e found.2) { p with known := some known } >>= fun p =>
        pure { p with ids := p.ids ++ [found.1] }) (Steady kept z₀ s) z := by
    intro known hknown
    unfold Sparing
    rw [Dialogue.ensures_bind]
    refine (hensured known hknown).weaken ?_
    rintro ⟨newId, carried⟩ z' ⟨hspares, hloose⟩
    have hsteady : Steady kept z₀ s { p with known := some known } z' :=
      ⟨hspares, h.pending, fun _ hk => Option.some.inj hk ▸ hknown⟩
    rw [Dialogue.ensures_bind]
    refine (hsteady.touch hloose deferred _ _ _).weaken ?_
    intro p' z'' h'
    exact ⟨h'.spares, h'.pending, h'.known⟩
  unfold Sparing
  rw [runCreate_eq, Dialogue.ensures_bind]
  cases hknown : p.known with
  | some known => exact hrest known (h.known known hknown)
  | none =>
    refine ensures_listed (.inr fun _ _ => trivial) (fun _ _ => h.spares) (hrest _ ?_)
    -- a listed record that is to be kept would be one that may be taken over
    intro r hr hvalue r₀ hr₀ hkept heq
    obtain ⟨hmem, hdomain, hhost, htype⟩ := mem_listing hr
    have hsame : some r₀ = some r := by
      rw [← h.spares.keeps r₀ hr₀ hkept, heq]
      exact h.spares.tidy.record?_of_mem hmem
    obtain rfl := Option.some.inj hsame
    exact hadopt r₀ hr₀ hkept ⟨hdomain, hhost, htype, hvalue⟩

theorem Steady.settle (h : Steady kept z₀ s p z) (weighting : Option Switch) :
    Sparing kept z₀ (settle s weighting p) (fun _ _ => True) z := by
  have hread : ∀ z', Spares kept z₀ z' → Sparing kept z₀ (do
      let id ← resourceId (p.ids.take s.entries.length)
      readBack id s) (fun _ _ => True) z' := by
    intro z' hspares
    unfold Sparing resourceId
    rw [Dialogue.ensures_bind]
    split
    · refine ensures_readBack hspares.tidy (.inr fun _ _ => trivial) (fun _ _ => hspares)
        (fun _ _ => trivial) (fun _ _ => trivial) (fun _ _ _ _ _ => trivial)
    · trivial
  -- weights wait for loose records only, so setting them spares the others
  have hweigh : ∀ (pending : List (String × UInt32)) z', (∀ q ∈ pending, Loose kept z₀ q.1) →
      Spares kept z₀ z' →
      Sparing kept z₀ (weighPending pending) (fun _ z' => Spares kept z₀ z') z' := by
    intro pending
    induction pending with
    | nil =>
      intro z' _ hspares
      exact hspares
    | cons q rest ih =>
      intro z' hloose hspares
      unfold Sparing
      rw [weighPending, Dialogue.ensures_bind]
      have hq := hloose q List.mem_cons_self
      refine ensures_setWeight hspares.tidy (.inr fun _ _ => trivial) (fun _ => hspares)
        (fun _ _ => trivial) (fun _ _ _ _ => trivial) ?_
      intro _ _ f hf
      have hedited := (hspares.edit hq (f := f) fun _ => by rw [hf]).note (.setWeight q.1 q.2)
      refine ⟨fun _ => hedited, ih _ ?_ hedited⟩
      intro q' hq'
      exact hloose q' (List.mem_cons_of_mem _ hq')
  have hrest : ∀ z', Spares kept z₀ z' → Sparing kept z₀ (weighPending p.pending >>= fun _ => do
      let id ← resourceId (p.ids.take s.entries.length)
      readBack id s) (fun _ _ => True) z' := by
    intro z' hspares
    unfold Sparing
    rw [Dialogue.ensures_bind]
    refine (hweigh p.pending z' h.pending hspares).weaken ?_
    intro _ z'' hspares'
    exact hread z'' hspares'
  unfold Sparing WeightedDns.settle
  rw [Dialogue.ensures_bind]
  refine ensures_whenSome ?_ ?_
  · intro _
    exact hrest z h.spares
  · intro position _
    refine ensures_setWeighting (.inr fun _ _ => trivial) (fun _ => h.spares) ?_
    intro c _
    have hswitched := (h.spares.switched (setName s) position.isOn).note c
    exact ⟨fun _ => hswitched, hrest _ hswitched⟩

end

/-- A record that is neither tracked nor one that the set may take over is as it was after every
call of an update. -/
theorem update_spares (tidy : z₀.Tidy) (prior : TrackedSet) (desired : RecordSet)
    {r : StoredRecord} (hr : r ∈ z₀.records) (htracked : r.id ∉ prior.id.ids)
    (hadopt : ¬ r.Adoptable desired) :
    ∀ x ∈ (update prior desired).steps remote z₀, x.2.record? r.id = some r := by
  -- all such records are followed at once: what is listed or added must stay clear of every one
  let kept : StoredRecord → Prop := fun r => r.id ∉ prior.id.ids ∧ ¬ r.Adoptable desired
  have hloose : ∀ id ∈ prior.id.ids, Loose kept z₀ id := by
    rintro id hid r - hkept rfl
    exact hkept.1 hid
  have htrackedId : ∀ (i : Nat) (b : Entry) (id : String),
      (prior.config.entries.zip prior.id.ids)[i]? = some (b, id) → Loose kept z₀ id := by
    intro i b id hi
    exact hloose id (List.of_mem_zip (List.mem_of_getElem? hi)).2
  have hstart : Steady kept z₀ desired ⟨prior.id.ids, [], none⟩ z₀ :=
    ⟨.refl tidy, by simp, by simp⟩
  have hensures : Sparing kept z₀ (update prior desired) (fun _ _ => True) z₀ := by
    refine ensures_update (Steady kept z₀ desired) (fun _ _ => trivial) ?_ ?_ ?_
    · intro _ _ _
      refine ensures_actionsFrom (R := fun _ => Steady kept z₀ desired) ?_ ?_ ?_ hstart
      · intro i b id a p z hb ha h
        refine ensures_planned ha ?_ fun _ _ _ _ => h
        exact h.reconcile (htrackedId i b id hb) _ a i _ _ _ _
      · intro p z _ h
        refine ensures_creates (A := fun _ => Steady kept z₀ desired) ?_ rfl h
        intro i a p z ha h
        rw [runAction_create ha]
        split
        · trivial
        · exact h.create (fun _ _ hkept => hkept.2) _ (List.mem_of_getElem? ha)
      · intro p z _ h
        refine ensures_deletes (A := fun _ => Steady kept z₀ desired) ?_ rfl h
        intro i b id p z hb h
        rw [runAction, Dialogue.ensures_bind]
        refine (sparing_deleteOne h.spares (htrackedId i b id hb)).weaken ?_
        intro _ z' hspares
        exact ⟨hspares, h.pending, h.known⟩
    · intro p z h
      exact h.settle _
    · intro _ _ _
      exact ensures_readBack tidy (.inr fun _ _ => trivial) (fun _ _ => .refl tidy)
        (fun _ _ => trivial) (fun _ _ => trivial) (fun _ _ _ _ _ => trivial)
  intro x hx
  exact (hensures.steps x hx).keeps r hr ⟨htracked, hadopt⟩

end Zone

end WeightedDns
