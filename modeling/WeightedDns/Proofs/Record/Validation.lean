import WeightedDns.Record.Set

/-!
# Validation

A set is found without fault exactly if it satisfies all rules at once
(`fault?_eq_none_iff`), whichever rule is looked at first.
-/

namespace WeightedDns.RecordSet

theorem entryFault?_eq_none_iff {i : Nat} {before : List String} {e : Entry} :
    entryFault? i before e = none ↔
      Text.isBlank e.value = false ∧ e.ttl ≠ 0 ∧ e.weight ≤ weightLimit ∧ e.value ∉ before := by
  have hweight : e.weight ≤ weightLimit ↔ ¬ weightLimit < e.weight := UInt32.not_lt.symm
  rw [hweight]
  unfold entryFault?
  split
  · simp_all
  · split
    · simp_all
    · split
      · simp_all
      · split <;> simp_all

/-- The values before an entry are those of the entries in front of it, so entries without fault
have different values. -/
theorem entriesFault?_eq_none_iff {i : Nat} {before : List String} {entries : List Entry} :
    entriesFault? i before entries = none ↔
      (∀ e ∈ entries, Text.isBlank e.value = false ∧ e.ttl ≠ 0 ∧ e.weight ≤ weightLimit ∧
        e.value ∉ before) ∧ (entries.map (·.value)).Nodup := by
  induction entries generalizing i before with
  | nil => simp [entriesFault?]
  | cons e rest ih =>
    unfold entriesFault?
    cases h : entryFault? i before e with
    | some fault =>
      have hfault : ¬ (Text.isBlank e.value = false ∧ e.ttl ≠ 0 ∧ e.weight ≤ weightLimit ∧
          e.value ∉ before) := by
        rw [← entryFault?_eq_none_iff (i := i), h]
        simp
      constructor
      · intro hnone
        cases hnone
      · rintro ⟨hall, -⟩
        exact absurd (hall e List.mem_cons_self) hfault
    | none =>
      have he := entryFault?_eq_none_iff.mp h
      dsimp only
      rw [ih, List.map_cons, List.nodup_cons]
      constructor
      · rintro ⟨hall, hnodup⟩
        refine ⟨?_, ?_, hnodup⟩
        · intro e' he'
          rcases List.mem_cons.mp he' with rfl | he'
          · exact he
          · obtain ⟨hvalue, httl, hweight, hbefore⟩ := hall e' he'
            exact ⟨hvalue, httl, hweight, fun hmem => hbefore (List.mem_cons_of_mem _ hmem)⟩
        · intro hmem
          obtain ⟨e', he', heq⟩ := List.mem_map.mp hmem
          exact (hall e' he').2.2.2 (heq ▸ List.mem_cons_self)
      · rintro ⟨hall, hvalue, hnodup⟩
        refine ⟨?_, hnodup⟩
        intro e' he'
        obtain ⟨hfilled, httl, hweight, hbefore⟩ := hall e' (List.mem_cons_of_mem _ he')
        refine ⟨hfilled, httl, hweight, ?_⟩
        intro hmem
        rcases List.mem_cons.mp hmem with heq | hmem
        · exact hvalue (heq ▸ List.mem_map_of_mem he')
        · exact hbefore hmem

/-- A set is without fault exactly if it is admissible. -/
theorem fault?_eq_none_iff {s : RecordSet} : s.fault? = none ↔ s.Admissible := by
  have hentries := @entriesFault?_eq_none_iff 0 [] s.entries
  constructor
  · intro h
    unfold fault? at h
    repeat' split at h
    any_goals contradiction
    rename_i hdomain hhost hline hempty hlimit
    obtain ⟨hall, hnodup⟩ := hentries.mp h
    exact {
      domain_filled := by simpa using hdomain
      host_filled := by simpa using hhost
      line_filled := by simpa using hline
      entries_nonempty := by simpa using hempty
      entries_bounded := Nat.le_of_not_lt hlimit
      value_filled := fun e he => (hall e he).1
      ttl_positive := fun e he => (hall e he).2.1
      weight_bounded := fun e he => (hall e he).2.2.1
      values_distinct := hnodup }
  · intro h
    have hempty : s.entries.isEmpty = false := by simpa using h.entries_nonempty
    unfold fault?
    rw [h.domain_filled, h.host_filled, h.line_filled, hempty,
      if_neg (Nat.not_lt.mpr h.entries_bounded)]
    refine hentries.mpr ⟨?_, h.values_distinct⟩
    intro e he
    exact ⟨h.value_filled e he, h.ttl_positive e he, h.weight_bounded e he, by simp⟩

/-- Different places of an admissible set have different values. -/
theorem Admissible.index_eq {s : RecordSet} (h : s.Admissible) {i j : Nat} {a b : Entry}
    (ha : s.entries[i]? = some a) (hb : s.entries[j]? = some b) (hvalue : a.value = b.value) :
    i = j := by
  have hi := (List.getElem?_eq_some_iff.mp ha).1
  refine (List.getElem?_inj (by simpa using hi) h.values_distinct).mp ?_
  rw [List.getElem?_map, List.getElem?_map, ha, hb, Option.map_some, Option.map_some, hvalue]

/-- An admissible set has entries, so a list with an item for each is not empty. -/
theorem Admissible.ne_nil {α : Type} {s : RecordSet} (h : s.Admissible) {l : List α}
    (hlength : l.length = s.entries.length) : l ≠ [] := by
  rintro rfl
  exact h.entries_nonempty (List.length_eq_zero_iff.mp hlength.symm)

end WeightedDns.RecordSet
