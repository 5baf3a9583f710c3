import WeightedDns.Proofs.Update.Add

/-!
# Finishing new records

Once all entries of a set have records, a create goes through them twice: it sets weights, then
remarks and status. Both loops take one step for every record (`each`), and as the records are
different ones, what a step leaves of its record is there at the end (`ensures_each`).
-/

namespace WeightedDns

open Lifecycle

namespace Lifecycle

/-- One step for every item, in order. -/
def each {α : Type} (step : α → Operation Unit) : List α → Operation Unit
  | [] => pure ()
  | x :: rest => do
    step x
    each step rest

/-- The weight that is set for an entry. -/
def ownWeight (e : Entry) : Option UInt32 := if e.weight != 0 then some e.weight else none

theorem ownWeight_eq_none_iff {e : Entry} : ownWeight e = none ↔ e.weight = 0 := by
  simp [ownWeight]

theorem eq_of_ownWeight_eq_some {e : Entry} {w : UInt32} (h : ownWeight e = some w) :
    w = e.weight := by
  unfold ownWeight at h
  split at h
  · exact (Option.some.inj h).symm
  · cases h

theorem weighAll_eq (items : List (String × Entry)) :
    weighAll items = each (fun x => whenSome (ownWeight x.2) (setWeight x.1)) items := by
  induction items with
  | nil => rfl
  | cons x rest ih =>
    obtain ⟨id, e⟩ := x
    rw [weighAll, each, ih]
    unfold ownWeight
    cases e.weight != 0 <;> rfl

theorem applyAllExtras_eq (items : List ((String × Extras) × Entry)) :
    applyAllExtras items =
      each (fun x => dress x.1.1 (missingRemark x.2 x.1.2) (missingStatus x.2 x.1.2)) items := by
  induction items with
  | nil => rfl
  | cons x rest ih =>
    obtain ⟨⟨id, carried⟩, e⟩ := x
    rw [applyAllExtras, each, ih, applyExtras_eq]

end Lifecycle

namespace Zone

/-- The second zone differs from the first at most in weight, remark and status of the records
with some IDs, in the switch of a host, and in notes of calls that add no record. -/
structure TouchedAll (host : String) (ids : List String) (z z' : Zone) : Prop where
  tidy : z'.Tidy
  cores : z'.cores = z.cores
  others : ∀ id, id ∉ ids → z'.record? id = z.record? id
  switches : ∀ name, name ≠ host → z'.weighting.lookup name = z.weighting.lookup name
  failures : z'.failures = z.failures
  added : z'.added = z.added

variable {z z' : Zone} {host : String} {ids : List String}

namespace TouchedAll

theorem refl (tidy : z.Tidy) (host : String) (ids : List String) : TouchedAll host ids z z :=
  ⟨tidy, rfl, fun _ _ => rfl, fun _ _ => rfl, rfl, rfl⟩

theorem trans {z'' : Zone} (h : TouchedAll host ids z z') (h' : TouchedAll host ids z' z'') :
    TouchedAll host ids z z'' where
  tidy := h'.tidy
  cores := h'.cores.trans h.cores
  others id hid := (h'.others id hid).trans (h.others id hid)
  switches name hname := (h'.switches name hname).trans (h.switches name hname)
  failures := h'.failures.trans h.failures
  added := h'.added.trans h.added

theorem mono {ids' : List String} (h : TouchedAll host ids z z') (hsub : ids ⊆ ids') :
    TouchedAll host ids' z z' where
  tidy := h.tidy
  cores := h.cores
  others id hid := h.others id fun hmem => hid (hsub hmem)
  switches := h.switches
  failures := h.failures
  added := h.added

theorem switched (tidy : z.Tidy) (ids : List String) (host : String) (position : Bool) {c : Call}
    (hc : c.added? = none) : TouchedAll host ids z ((z.switched host position).note c) where
  tidy := ⟨tidy.ids_nodup, tidy.ids_numbered⟩
  cores := rfl
  others _ _ := rfl
  switches name hname := by
    show (setSwitch host position z.weighting).lookup name = z.weighting.lookup name
    rw [lookup_setSwitch, if_neg hname]
  failures := rfl
  added := by
    rw [added_note, hc, Option.toList_none, List.append_nil]
    rfl

end TouchedAll

theorem Touched.all {id : String} (h : Touched id z z') (host : String) (hid : id ∈ ids) :
    TouchedAll host ids z z' where
  tidy := h.tidy
  cores := h.cores
  others id' hid' := h.others id' fun heq => hid' (heq ▸ hid)
  switches name _ := by rw [h.weighting]
  failures := h.failures
  added := h.added

section

variable {inv : Call → Zone → Prop} {err : LifecycleError → Zone → Prop}

/-- A loop over different records does to each what a step does to it. -/
theorem ensures_each {α : Type} {step : α → Operation Unit} (key : α → String)
    (rel : α → StoredRecord → StoredRecord → Prop) {items : List α} {post : Unit → Zone → Prop}
    (host : String) (tidy : z.Tidy) (hnodup : (items.map key).Nodup)
    (hstep : ∀ x ∈ items, ∀ z', TouchedAll host (items.map key) z z' → z'.weighting = z.weighting →
      z'.record? (key x) = z.record? (key x) →
      (step x).Ensures remote inv (fun _ z'' => Touched (key x) z' z'' ∧
        ∀ r, z'.record? (key x) = some r → ∃ r', z''.record? (key x) = some r' ∧ rel x r r')
        err z')
    (hpost : ∀ z', TouchedAll host (items.map key) z z' → z'.weighting = z.weighting →
      (∀ x ∈ items, ∀ r, z.record? (key x) = some r →
        ∃ r', z'.record? (key x) = some r' ∧ rel x r r') → post () z') :
    (each step items).Ensures remote inv post err z := by
  -- by induction on the items; no later step is on the record of the first one
  induction items generalizing z with
  | nil => exact hpost z (.refl tidy _ _) rfl fun _ hx => nomatch hx
  | cons x rest ih =>
    rw [List.map_cons, List.nodup_cons] at hnodup
    rw [each, Dialogue.ensures_bind]
    refine (hstep x List.mem_cons_self z (.refl tidy _ _) rfl rfl).weaken ?_
    rintro _ z₁ ⟨ht, hx⟩
    have hfirst : TouchedAll host ((x :: rest).map key) z z₁ := ht.all host List.mem_cons_self
    have hwider : ∀ {z'}, TouchedAll host (rest.map key) z₁ z' →
        TouchedAll host ((x :: rest).map key) z z' := fun h =>
      hfirst.trans (h.mono (List.subset_cons_self _ _))
    have hothers : ∀ y ∈ rest, z₁.record? (key y) = z.record? (key y) := by
      intro y hy
      refine ht.others (key y) ?_
      intro heq
      exact hnodup.1 (heq ▸ List.mem_map_of_mem hy)
    refine ih ht.tidy hnodup.2 ?_ ?_
    · intro y hy z' h hweighting hsame
      exact hstep y (List.mem_cons_of_mem _ hy) z' (hwider h) (hweighting.trans ht.weighting)
        (hsame.trans (hothers y hy))
    · intro z' h hweighting hrest
      refine hpost z' (hwider h) (hweighting.trans ht.weighting) ?_
      intro y hy r hr
      rcases List.mem_cons.mp hy with rfl | hy
      · rw [h.others _ hnodup.1]
        exact hx r hr
      · rw [← hothers y hy] at hr
        exact hrest y hy r hr

end

end Zone

end WeightedDns
