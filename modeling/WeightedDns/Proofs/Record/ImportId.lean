import WeightedDns.Proofs.Record.ResourceId

/-!
# Written import IDs

A text is read as a zone and the ID of a record exactly if a single slash stands in it, with
something before and something behind (`parse?_eq_some_iff`).
-/

namespace WeightedDns.ImportId

/-- The text names a record of a zone: a single slash stands between the two, and neither is
empty. -/
structure IsWritten (i : ImportId) (text : String) : Prop where
  one_slash : text.toList.count '/' = 1
  parts : text = i.domain ++ "/" ++ i.recordId
  domain_ne : i.domain ≠ ""
  recordId_ne : i.recordId ≠ ""

theorem toList_parts (domain recordId : String) :
    (domain ++ "/" ++ recordId).toList = domain.toList ++ '/' :: recordId.toList := by
  rw [String.toList_append, String.toList_append, List.append_assoc]
  rfl

/-- Between two parts there is a single slash exactly if neither part has one. -/
theorem count_slash_eq_one_iff {domain recordId : List Char} :
    (domain ++ '/' :: recordId).count '/' = 1 ↔ '/' ∉ domain ∧ '/' ∉ recordId := by
  rw [List.count_append, List.count_cons_self, ← List.count_eq_zero, ← List.count_eq_zero]
  omega

theorem isWritten_iff {i : ImportId} {text : String} :
    i.IsWritten text ↔ text = i.domain ++ "/" ++ i.recordId ∧ i.domain ≠ "" ∧ i.recordId ≠ "" ∧
      '/' ∉ i.domain.toList ∧ '/' ∉ i.recordId.toList := by
  constructor
  · rintro ⟨hslash, rfl, hdomain, hrecord⟩
    rw [toList_parts, count_slash_eq_one_iff] at hslash
    exact ⟨rfl, hdomain, hrecord, hslash⟩
  · rintro ⟨rfl, hdomain, hrecord, hslash⟩
    refine ⟨?_, rfl, hdomain, hrecord⟩
    rw [toList_parts, count_slash_eq_one_iff]
    exact hslash

/-- Two parts with a separator between them are what the text is made of. -/
theorem splitAt_eq_pair_iff {cs domain recordId : List Char} :
    ResourceId.splitAt '/' cs = [domain, recordId] ↔
      cs = domain ++ '/' :: recordId ∧ '/' ∉ domain ∧ '/' ∉ recordId := by
  constructor
  · intro h
    have hdomain : '/' ∉ domain :=
      ResourceId.separator_not_mem_of_mem_splitAt (h ▸ List.mem_cons_self)
    have hrecord : '/' ∉ recordId :=
      ResourceId.separator_not_mem_of_mem_splitAt (h ▸ List.mem_cons_of_mem _ List.mem_cons_self)
    refine ⟨?_, hdomain, hrecord⟩
    rw [← ResourceId.intercalate_splitAt cs, h]
    simp
  · rintro ⟨rfl, hdomain, hrecord⟩
    rw [ResourceId.splitAt_append hdomain, ResourceId.splitAt_eq_singleton hrecord]

/-- What is read from a text is what it is the written form of. -/
theorem parse?_eq_some_iff {text : String} {i : ImportId} :
    parse? text = some i ↔ i.IsWritten text := by
  rw [isWritten_iff]
  constructor
  · intro h
    rw [parse?] at h
    split at h
    next domain recordId hparts =>
      split at h
      next => cases h
      next hfilled =>
        obtain ⟨htext, hdomain, hrecord⟩ := splitAt_eq_pair_iff.mp hparts
        rw [Bool.or_eq_true, not_or, List.isEmpty_iff, List.isEmpty_iff] at hfilled
        cases h
        simp only [Ne, ← String.toList_inj, toList_parts, String.toList_ofList]
        exact ⟨htext, hfilled.1, hfilled.2, hdomain, hrecord⟩
    next => cases h
  · rintro ⟨rfl, hdomain, hrecord, hslash⟩
    have hparts := splitAt_eq_pair_iff.mpr ⟨toList_parts i.domain i.recordId, hslash⟩
    have hfilled : ¬ (i.domain.toList.isEmpty || i.recordId.toList.isEmpty) = true := by
      simp [hdomain, hrecord]
    rw [parse?, hparts]
    dsimp only
    rw [if_neg hfilled, String.ofList_toList, String.ofList_toList]

theorem parse?_eq_none_iff {text : String} :
    parse? text = none ↔ ∀ i : ImportId, ¬ i.IsWritten text := by
  simp only [← parse?_eq_some_iff, Option.eq_none_iff_forall_ne_some]

end WeightedDns.ImportId
