import WeightedDns.Proofs.Update.Touch

/-!
# Bringing records to match entries

`reconcileCore` sees to the record that is tracked for an entry, and `ensure` to one that a listing
has for it. Either keeps the record where it matches, overwrites it where it does not, and adds a
new one where there is none.
-/

namespace WeightedDns

open Lifecycle

/-- A tracked record after its core has been seen to. -/
def StoredRecord.reconciled (old new : RecordSet) (e : Entry) (r : StoredRecord) : StoredRecord :=
  if (old.sharedDiffers new || r.value != e.value || r.ttl != e.ttl) && !coreMatches r new e then
    r.rewritten new e
  else r

namespace StoredRecord

variable {old new : RecordSet} {e : Entry} {r : StoredRecord}

theorem coreMatches_iff {s : RecordSet} :
    coreMatches r s e = true ↔
      Text.sameLetters r.host s.host ∧ r.type = s.type ∧ r.value = e.value ∧ r.ttl = e.ttl ∧
        r.line = s.line ∧ (s.priority = none ∨ r.priority = s.priority) := by
  simp [coreMatches, and_assoc]

@[simp] theorem reconciled_id : (r.reconciled old new e).id = r.id := by
  unfold reconciled
  split <;> rfl

@[simp] theorem reconciled_domain : (r.reconciled old new e).domain = r.domain := by
  unfold reconciled
  split <;> rfl

@[simp] theorem reconciled_weight : (r.reconciled old new e).weight = r.weight := by
  unfold reconciled
  split <;> rfl

@[simp] theorem reconciled_status : (r.reconciled old new e).status = r.status := by
  unfold reconciled
  split <;> rfl

@[simp] theorem reconciled_remark : (r.reconciled old new e).remark = r.remark := by
  unfold reconciled
  split <;> rfl

/-- A record that has been seen to is the old one, one that differs in nothing a plan compares, or
matches. -/
theorem reconciled_cases (old new : RecordSet) (e : Entry) (r : StoredRecord) :
    (r.reconciled old new e = r ∧ old.sharedDiffers new = false ∧ r.value = e.value ∧
      r.ttl = e.ttl) ∨
    (r.reconciled old new e = r ∧ coreMatches r new e = true) ∨
    r.reconciled old new e = r.rewritten new e := by
  unfold reconciled
  cases hm : coreMatches r new e with
  | true => exact .inr (.inl ⟨by simp, rfl⟩)
  | false =>
    cases hc : old.sharedDiffers new || r.value != e.value || r.ttl != e.ttl with
    | true => exact .inr (.inr (by simp))
    | false =>
      simp only [Bool.or_eq_false_iff, bne_eq_false_iff_eq] at hc
      exact .inl ⟨by simp, hc.1.1, hc.1.2, hc.2⟩

@[simp] theorem reconciled_value : (r.reconciled old new e).value = e.value := by
  rcases reconciled_cases old new e r with ⟨h, _, hvalue, _⟩ | ⟨h, hm⟩ | h
  · rw [h, hvalue]
  · rw [h, (coreMatches_iff.mp hm).2.2.1]
  · rw [h]
    rfl

@[simp] theorem reconciled_ttl : (r.reconciled old new e).ttl = e.ttl := by
  rcases reconciled_cases old new e r with ⟨h, _, _, httl⟩ | ⟨h, hm⟩ | h
  · rw [h, httl]
  · rw [h, (coreMatches_iff.mp hm).2.2.2.1]
  · rw [h]
    rfl

/-- A record with the core of one that has been seen to has value and time to live of the entry. -/
theorem value_ttl_of_reconciled {r' : StoredRecord}
    (hcore : r'.core = (r.reconciled old new e).core) : r'.value = e.value ∧ r'.ttl = e.ttl :=
  ⟨(congrArg (·.value) hcore).trans reconciled_value,
    (congrArg (·.ttl) hcore).trans reconciled_ttl⟩

end StoredRecord

namespace Zone

variable {z : Zone} {inv : Call → Zone → Prop} {err : LifecycleError → Zone → Prop}
  {s : RecordSet} {e : Entry}

theorem ensures_reconcileCore {id : String} {checkCore : Bool}
    {post : Option String → Zone → Prop} (tidy : z.Tidy)
    (sure : z.failures = [] ∨ ∀ e z', err e z') (hinv : ∀ c, inv c z)
    (hkept : ∀ r, z.record? id = some r → (checkCore && !coreMatches r s e) = false →
      post none z)
    (hrewritten : ∀ r, z.record? id = some r → (checkCore && !coreMatches r s e) = true →
      ∀ c, (∀ c', inv c' ((z.edit id (.rewritten s e)).note c)) ∧
        post none ((z.edit id (.rewritten s e)).note c))
    (hadded : z.record? id = none ∨ z.failures.lookup .describeRecord ≠ none →
      (add s e).Ensures remote inv (fun newId => post (some newId)) err z) :
    (reconcileCore s e id checkCore).Ensures remote inv post err z := by
  unfold reconcileCore
  rw [Dialogue.ensures_bind]
  refine ensures_fetch? sure (fun c _ => hinv c) ?_ ?_
  · intro r hr _
    -- the core of a record does not include the weight that a fetch leaves out
    have hmatches : coreMatches { r with weight := none } s e = coreMatches r s e := rfl
    dsimp only
    rw [hmatches]
    cases hcheck : checkCore && !coreMatches r s e with
    | false => exact hkept r hr hcheck
    | true =>
      rw [if_pos rfl, Dialogue.ensures_bind]
      refine ensures_overwrite tidy sure hinv ?_ ?_
      · intro hnone
        rw [hr] at hnone
        cases hnone
      · intro _ _ c _
        exact hrewritten r hr hcheck c
  · intro hgone
    dsimp only
    rw [Dialogue.ensures_bind]
    exact hadded hgone

theorem ensures_ensure {known : List StoredRecord} {post : String × Extras → Zone → Prop}
    (hmatched : ∀ r, known.find? (fun r => r.value == e.value) = some r →
      coreMatches r s e = true → post (r.id, .of r) z)
    (hrewritten : ∀ r, known.find? (fun r => r.value == e.value) = some r →
      coreMatches r s e = false →
      (overwrite s e r.id).Ensures remote inv (fun _ => post (r.id, .of r)) err z)
    (hadded : known.find? (fun r => r.value == e.value) = none →
      (add s e).Ensures remote inv (fun id => post (id, .fresh)) err z) :
    (ensure s known e).Ensures remote inv post err z := by
  unfold ensure
  cases hfind : known.find? fun r => r.value == e.value with
  | none =>
    dsimp only
    rw [Dialogue.ensures_bind]
    exact hadded hfind
  | some r =>
    dsimp only
    cases hm : coreMatches r s e with
    | true => exact hmatched r hfind hm
    | false =>
      rw [Bool.not_false, if_pos rfl, Dialogue.ensures_bind]
      exact hrewritten r hfind hm

end Zone

end WeightedDns
