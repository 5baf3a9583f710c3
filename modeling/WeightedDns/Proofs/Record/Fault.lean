import Mathlib.Data.List.Nodup
import Mathlib.Tactic.SplitIfs
import WeightedDns.Proofs.Record.Validation

/-!
# First faults

The rules for a set are gone through in rounds: the first round looks at the set as a whole, and
after it there is one for each entry. `Breaks` says which rule of which round is broken, whatever
else is wrong with the set. Validation names the first of these, round by round and rule by rule
(`fault?_eq_some_iff`), in words that it has for no other fault (`Fault.message_injective`). So a
repeated value is named at its second place, and nothing is named exactly of the sets that keep all
rules (`validation_exact`).
-/

namespace WeightedDns

namespace Text

/-- A text has a character that is not blank. -/
def Filled (s : String) : Prop := ∃ c ∈ s.toList, isBlankChar c = false

theorem filled_iff {s : String} : Filled s ↔ isBlank s = false := by
  simp [Filled, isBlank]

theorem isBlank_iff {s : String} : isBlank s = true ↔ ¬ Filled s := by
  rw [filled_iff, Bool.not_eq_false]

end Text

namespace RecordSet

variable {s : RecordSet}

theorem one_le_iff {n : UInt32} : 1 ≤ n ↔ n ≠ 0 := by grind

/-- What a set has to satisfy, rule by rule. -/
theorem admissible_iff :
    s.Admissible ↔
      Text.Filled s.domain ∧ Text.Filled s.host ∧ Text.Filled s.line ∧
      1 ≤ s.entries.length ∧ s.entries.length ≤ 50 ∧
      (∀ e ∈ s.entries, Text.Filled e.value ∧ 1 ≤ e.ttl ∧ e.weight ≤ 100) ∧
      s.entries.Pairwise fun e e' => e.value ≠ e'.value := by
  simp only [Text.filled_iff]
  constructor
  · intro h
    refine ⟨h.domain_filled, h.host_filled, h.line_filled,
      List.length_pos_iff.mpr h.entries_nonempty, h.entries_bounded, fun e he => ?_,
      List.pairwise_map.mp h.values_distinct⟩
    exact ⟨h.value_filled e he, one_le_iff.mpr (h.ttl_positive e he), h.weight_bounded e he⟩
  · rintro ⟨hdomain, hhost, hline, hsome, hbounded, hentries, hdistinct⟩
    exact {
      domain_filled := hdomain
      host_filled := hhost
      line_filled := hline
      entries_nonempty := List.length_pos_iff.mp hsome
      entries_bounded := hbounded
      value_filled := fun e he => (hentries e he).1
      ttl_positive := fun e he => one_le_iff.mp (hentries e he).2.1
      weight_bounded := fun e he => (hentries e he).2.2
      values_distinct := List.pairwise_map.mpr hdistinct }

/-! ## Broken rules -/

/-- The values of the entries in front of an index. -/
def valuesBefore (s : RecordSet) (index : Nat) : List String :=
  (s.entries.take index).map (·.value)

theorem getElem?_valuesBefore {i k : Nat} (h : k < i) :
    (s.valuesBefore i)[k]? = s.entries[k]?.map (·.value) := by
  rw [valuesBefore, List.getElem?_map, List.getElem?_take_of_lt h]

theorem valuesBefore_succ {i : Nat} {e : Entry} (he : s.entries[i]? = some e) :
    s.valuesBefore (i + 1) = s.valuesBefore i ++ [e.value] := by
  rw [valuesBefore, List.take_add_one, he, List.map_append]
  rfl

/-- The set breaks a rule of a round and has a fault for it. The rules of a round are numbered in
the order in which they are checked; the round after the first one is about the entry at index
zero, and so on. -/
inductive Breaks (s : RecordSet) : (round rule : Nat) → Fault → Prop where
  | domain (h : ¬ Text.Filled s.domain) : Breaks s 0 0 (.blankField .domain)
  | host (h : ¬ Text.Filled s.host) : Breaks s 0 1 (.blankField .host)
  | line (h : ¬ Text.Filled s.line) : Breaks s 0 2 (.blankField .line)
  | noEntries (h : ¬ 1 ≤ s.entries.length) : Breaks s 0 3 .noEntries
  | tooManyEntries (h : ¬ s.entries.length ≤ 50) :
    Breaks s 0 4 (.tooManyEntries s.entries.length)
  | value {i : Nat} {e : Entry} (he : s.entries[i]? = some e) (h : ¬ Text.Filled e.value) :
    Breaks s (i + 1) 0 (.blankValue i)
  | ttl {i : Nat} {e : Entry} (he : s.entries[i]? = some e) (h : ¬ 1 ≤ e.ttl) :
    Breaks s (i + 1) 1 (.zeroTtl i)
  | weight {i : Nat} {e : Entry} (he : s.entries[i]? = some e) (h : ¬ e.weight ≤ 100) :
    Breaks s (i + 1) 2 (.weightTooGreat i e.weight)
  | repeated {i : Nat} {e : Entry} (he : s.entries[i]? = some e)
      (h : e.value ∈ s.valuesBefore i) : Breaks s (i + 1) 3 (.repeatedValue i e.value)

/-- A rule is checked no later than another one: in an earlier round, or in the same round and not
behind it. -/
def NoLater (round rule round' rule' : Nat) : Prop :=
  round < round' ∨ round = round' ∧ rule ≤ rule'

/-- The fault of the first rule that a set breaks. -/
def FirstFault (s : RecordSet) (fault : Fault) : Prop :=
  ∃ round rule, s.Breaks round rule fault ∧
    ∀ round' rule' fault', s.Breaks round' rule' fault' → NoLater round rule round' rule'

/-- For one rule a set has at most one fault. -/
theorem Breaks.unique {round rule : Nat} {fault fault' : Fault} (h : s.Breaks round rule fault)
    (h' : s.Breaks round rule fault') : fault = fault' := by
  cases h with
  | domain | host | line | noEntries | tooManyEntries | value | ttl => cases h'; rfl
  | weight he =>
    cases h' with
    | weight he' =>
      obtain rfl := Option.some.inj (he.symm.trans he')
      rfl
  | repeated he =>
    cases h' with
    | repeated he' =>
      obtain rfl := Option.some.inj (he.symm.trans he')
      rfl

theorem FirstFault.unique {fault fault' : Fault} (h : s.FirstFault fault)
    (h' : s.FirstFault fault') : fault = fault' := by
  obtain ⟨round, rule, hbreaks, hfirst⟩ := h
  obtain ⟨round', rule', hbreaks', hfirst'⟩ := h'
  have hle := hfirst _ _ _ hbreaks'
  have hge := hfirst' _ _ _ hbreaks
  obtain ⟨rfl, rfl⟩ : round = round' ∧ rule = rule' := by
    unfold NoLater at hle hge
    omega
  exact hbreaks.unique hbreaks'

/-! ## Rule by rule -/

/-- What is found is right from a rule of a round on: nothing if neither it nor a later one is
broken, and otherwise the fault of the first that is. -/
def FoundFrom (s : RecordSet) (round rule : Nat) : Option Fault → Prop
  | none => ∀ round' rule' fault, NoLater round rule round' rule' → ¬ s.Breaks round' rule' fault
  | some fault => ∃ first number, NoLater round rule first number ∧ s.Breaks first number fault ∧
      ∀ round' rule' fault', NoLater round rule round' rule' → s.Breaks round' rule' fault' →
        NoLater first number round' rule'

/-- What is found from a later rule on is right, if none is broken before it. -/
theorem FoundFrom.of_later {round rule round' rule' : Nat} {o : Option Fault}
    (hlater : NoLater round rule round' rule')
    (hkept : ∀ i r fault, NoLater round rule i r → s.Breaks i r fault → NoLater round' rule' i r)
    (h : s.FoundFrom round' rule' o) : s.FoundFrom round rule o := by
  cases o with
  | none =>
    intro i r fault hfrom hbreaks
    exact h i r fault (hkept i r fault hfrom hbreaks) hbreaks
  | some fault =>
    obtain ⟨first, number, hfirst, hbreaks, hleast⟩ := h
    refine ⟨first, number, ?_, hbreaks, ?_⟩
    · unfold NoLater at *
      omega
    · intro i r fault' hfrom hbreaks'
      exact hleast i r fault' (hkept i r fault' hfrom hbreaks') hbreaks'

/-- A rule is checked: if it is broken its fault is found, and otherwise what the rules behind it
say. -/
theorem FoundFrom.check {round rule : Nat} {p : Prop} [Decidable p] {fault : Fault}
    {o : Option Fault} (hbroken : p → s.Breaks round rule fault)
    (hkept : ∀ f, s.Breaks round rule f → p) (hrest : s.FoundFrom round (rule + 1) o) :
    s.FoundFrom round rule (if p then some fault else o) := by
  split
  next h => exact ⟨round, rule, .inr ⟨rfl, Nat.le_refl rule⟩, hbroken h, fun _ _ _ hfrom _ => hfrom⟩
  next h =>
    refine hrest.of_later (.inr ⟨rfl, Nat.le_succ rule⟩) ?_
    intro i r f hfrom hbreaks
    by_cases hsame : i = round ∧ r = rule
    · obtain ⟨rfl, rfl⟩ := hsame
      exact absurd (hkept f hbreaks) h
    · unfold NoLater at *
      omega

/-- Behind the last rule of a round comes the next round. -/
theorem FoundFrom.nextRound {round rule : Nat} {o : Option Fault}
    (hlast : ∀ r fault, s.Breaks round r fault → r < rule) (h : s.FoundFrom (round + 1) 0 o) :
    s.FoundFrom round rule o := by
  refine h.of_later (.inl (Nat.lt_succ_self round)) ?_
  intro i r fault hfrom hbreaks
  have hrule : i = round → r < rule := fun hi => hlast r fault (hi ▸ hbreaks)
  unfold NoLater at *
  omega

theorem entriesFault?_cons (i : Nat) (before : List String) (e : Entry) (rest : List Entry) :
    entriesFault? i before (e :: rest) =
      if Text.isBlank e.value then some (.blankValue i)
      else if e.ttl = 0 then some (.zeroTtl i)
      else if weightLimit < e.weight then some (.weightTooGreat i e.weight)
      else if e.value ∈ before then some (.repeatedValue i e.value)
      else entriesFault? (i + 1) (e.value :: before) rest := by
  rw [entriesFault?, entryFault?]
  split_ifs <;> rfl

/-- The entries from an index on are checked in order, each against the values before it. -/
theorem foundFrom_entriesFault? {i : Nat} {before : List String} {rest : List Entry}
    (hrest : s.entries.drop i = rest) (hbefore : ∀ v, v ∈ before ↔ v ∈ s.valuesBefore i) :
    s.FoundFrom (i + 1) 0 (entriesFault? i before rest) := by
  -- by induction on the entries left, with the values before them as the invariant
  induction rest generalizing i before with
  | nil =>
    intro round rule fault hfrom hbreaks
    have hnone : ∀ {j e}, s.entries[j]? = some e → j < i := fun he =>
      Nat.lt_of_lt_of_le (List.getElem?_eq_some_iff.mp he).1 (List.drop_eq_nil_iff.mp hrest)
    unfold NoLater at hfrom
    cases hbreaks with
    | domain | host | line | noEntries | tooManyEntries => omega
    | value he | ttl he | weight he | repeated he =>
      have := hnone he
      omega
  | cons e rest ih =>
    have he : s.entries[i]? = some e := by
      rw [← List.head?_drop, hrest, List.head?_cons]
    have hsame : ∀ {e'}, s.entries[i]? = some e' → e' = e := fun he' =>
      Option.some.inj (he'.symm.trans he)
    have htail : s.entries.drop (i + 1) = rest := by
      rw [← List.tail_drop, hrest, List.tail_cons]
    have hvalues : ∀ v, v ∈ e.value :: before ↔ v ∈ s.valuesBefore (i + 1) := by
      intro v
      rw [valuesBefore_succ he, List.mem_append, List.mem_singleton, List.mem_cons, hbefore,
        or_comm]
    have httl : e.ttl = 0 ↔ ¬ 1 ≤ e.ttl := by rw [one_le_iff, not_not]
    have hweight : weightLimit < e.weight ↔ ¬ e.weight ≤ 100 := UInt32.not_le.symm
    rw [entriesFault?_cons]
    refine .check (fun h => .value he (Text.isBlank_iff.mp h)) ?_ <|
      .check (fun h => .ttl he (httl.mp h)) ?_ <| .check (fun h => .weight he (hweight.mp h)) ?_ <|
      .check (fun h => .repeated he ((hbefore _).mp h)) ?_ <| .nextRound ?_ (ih htail hvalues)
    · intro _ hbreaks
      cases hbreaks with
      | value he' h => exact Text.isBlank_iff.mpr (hsame he' ▸ h)
    · intro _ hbreaks
      cases hbreaks with
      | ttl he' h => exact httl.mpr (hsame he' ▸ h)
    · intro _ hbreaks
      cases hbreaks with
      | weight he' h => exact hweight.mpr (hsame he' ▸ h)
    · intro _ hbreaks
      cases hbreaks with
      | repeated he' h => exact (hbefore _).mpr (hsame he' ▸ h)
    · intro rule fault hbreaks
      cases hbreaks <;> decide

/-- The first round is about the set as a whole: its zone, its host, its line and the number of its
entries, in this order. -/
theorem foundFrom_fault? (s : RecordSet) : s.FoundFrom 0 0 s.fault? := by
  have hempty : s.entries.isEmpty = true ↔ ¬ 1 ≤ s.entries.length := by
    rw [List.isEmpty_iff_length_eq_zero]
    omega
  have hmany : entryLimit < s.entries.length ↔ ¬ s.entries.length ≤ 50 := Nat.not_le.symm
  have hentries : s.FoundFrom 1 0 (entriesFault? 0 [] s.entries) :=
    foundFrom_entriesFault? List.drop_zero fun v => by simp [valuesBefore]
  refine .check (fun h => .domain (Text.isBlank_iff.mp h)) ?_ <|
    .check (fun h => .host (Text.isBlank_iff.mp h)) ?_ <|
    .check (fun h => .line (Text.isBlank_iff.mp h)) ?_ <|
    .check (fun h => .noEntries (hempty.mp h)) ?_ <|
    .check (fun h => .tooManyEntries (hmany.mp h)) ?_ <| .nextRound ?_ hentries
  · intro _ hbreaks
    cases hbreaks with
    | domain h => exact Text.isBlank_iff.mpr h
  · intro _ hbreaks
    cases hbreaks with
    | host h => exact Text.isBlank_iff.mpr h
  · intro _ hbreaks
    cases hbreaks with
    | line h => exact Text.isBlank_iff.mpr h
  · intro _ hbreaks
    cases hbreaks with
    | noEntries h => exact hempty.mpr h
  · intro _ hbreaks
    cases hbreaks with
    | tooManyEntries h => exact hmany.mpr h
  · intro rule fault hbreaks
    cases hbreaks <;> decide

/-- Validation names the fault of the first rule that is broken. -/
theorem fault?_eq_some_iff {fault : Fault} : s.fault? = some fault ↔ s.FirstFault fault := by
  have hall : ∀ round rule, NoLater 0 0 round rule := by
    intro round rule
    unfold NoLater
    omega
  have hfound := s.foundFrom_fault?
  cases hcase : s.fault? with
  | none =>
    rw [hcase] at hfound
    constructor
    · intro h
      cases h
    · rintro ⟨round, rule, hbreaks, -⟩
      exact absurd hbreaks (hfound round rule fault (hall round rule))
  | some first =>
    rw [hcase] at hfound
    obtain ⟨round, rule, -, hbreaks, hleast⟩ := hfound
    have hfirst : s.FirstFault first :=
      ⟨round, rule, hbreaks, fun _ _ _ hbreaks' => hleast _ _ _ (hall _ _) hbreaks'⟩
    constructor
    · rintro ⟨⟩
      exact hfirst
    · intro h
      rw [hfirst.unique h]

/-! ## Values -/

/-- In front of the first entry with a fault no value is repeated. -/
theorem FirstFault.nodup_valuesBefore {i : Nat} {v : String}
    (h : s.FirstFault (.repeatedValue i v)) : (s.valuesBefore i).Nodup := by
  obtain ⟨round, rule, hbreaks, hfirst⟩ := h
  cases hbreaks
  rw [List.nodup_iff_getElem?_ne_getElem?]
  intro j k hjk hk hsame
  have hlength : (s.valuesBefore i).length ≤ i := by
    rw [valuesBefore, List.length_map]
    exact List.length_take_le _ _
  rw [getElem?_valuesBefore (by omega), getElem?_valuesBefore (by omega)] at hsame
  have hlt : k < s.entries.length := by
    simp only [valuesBefore, List.length_map, List.length_take] at hk
    omega
  have he : s.entries[k]? = some s.entries[k] := List.getElem?_eq_getElem hlt
  rw [he, ← getElem?_valuesBefore hjk] at hsame
  -- the later of two equal values would be named before this one
  have hle := hfirst _ _ _ (.repeated he (List.mem_of_getElem? hsame))
  unfold NoLater at hle
  omega

/-- The value that is named as repeated stands at its second place. -/
theorem FirstFault.count_eq_two {i : Nat} {v : String} (h : s.FirstFault (.repeatedValue i v)) :
    (s.valuesBefore (i + 1)).count v = 2 := by
  have hnodup := h.nodup_valuesBefore
  obtain ⟨round, rule, hbreaks, -⟩ := h
  cases hbreaks with
  | repeated he hmem =>
    rw [valuesBefore_succ he, List.count_append, List.count_eq_one_of_mem hnodup hmem,
      List.count_singleton_self]

/-! ## Wording -/

theorem toDigits_inj {m n : Nat} : Nat.toDigits 10 m = Nat.toDigits 10 n ↔ m = n := by
  refine ⟨fun h => ?_, congrArg _⟩
  rw [← Nat.ofDigitChars_ten_toDigits (n := m), h, Nat.ofDigitChars_ten_toDigits]

/-- An index in a text ends at the bracket behind it. -/
theorem toDigits_bracket_inj {m n : Nat} {cs ds : List Char} :
    Nat.toDigits 10 m ++ ']' :: cs = Nat.toDigits 10 n ++ ']' :: ds ↔ m = n ∧ cs = ds := by
  have hindex : ∀ n cs, (Nat.toDigits 10 n ++ ']' :: cs).takeWhile Char.isDigit =
      Nat.toDigits 10 n := by
    intro n cs
    rw [List.takeWhile_append_of_pos fun c hc =>
      Nat.isDigit_of_mem_toDigits (by decide) (by decide) hc]
    exact List.append_nil _
  constructor
  · intro h
    have hdigits := congrArg (List.takeWhile Char.isDigit) h
    rw [hindex, hindex] at hdigits
    rw [hdigits] at h
    exact ⟨toDigits_inj.mp hdigits, List.tail_eq_of_cons_eq (List.append_cancel_left h)⟩
  · rintro ⟨rfl, rfl⟩
    rfl

/-- The wording tells which fault it is of, down to the index, the number and the value in it. -/
theorem Fault.message_injective : Function.Injective Fault.message := by
  intro f g h
  rw [← String.toList_inj] at h
  rcases f with ⟨_ | _ | _⟩ | _ | n | i | i | ⟨i, w⟩ | ⟨i, v⟩ <;>
    rcases g with ⟨_ | _ | _⟩ | _ | n' | i' | i' | ⟨i', w'⟩ | ⟨i', v'⟩
  -- letter by letter, up to the first number or value
  all_goals
    dsimp only [message, Field.name, toString] at h
    simp_all [toDigits_bracket_inj, toDigits_inj, ← UInt32.toNat_inj, ← String.toList_inj]

/-! ## Validation as a whole -/

/-- Validation finds nothing exactly of the sets that keep every rule, and of any other set it
names the first rule that is broken: of the set as a whole, or else of the first entry that breaks
one, and a repeated value at its second place. -/
theorem validation_exact (s : RecordSet) :
    (s.fault? = none ↔
      Text.Filled s.domain ∧ Text.Filled s.host ∧ Text.Filled s.line ∧
      1 ≤ s.entries.length ∧ s.entries.length ≤ 50 ∧
      (∀ e ∈ s.entries, Text.Filled e.value ∧ 1 ≤ e.ttl ∧ e.weight ≤ 100) ∧
      s.entries.Pairwise fun e e' => e.value ≠ e'.value) ∧
    (∀ fault, s.fault? = some fault ↔ s.FirstFault fault) ∧
    (∀ i v, s.fault? = some (.repeatedValue i v) → (s.valuesBefore (i + 1)).count v = 2) ∧
    Function.Injective Fault.message := by
  refine ⟨fault?_eq_none_iff.trans admissible_iff, fun fault => fault?_eq_some_iff, ?_,
    Fault.message_injective⟩
  intro i v h
  exact (fault?_eq_some_iff.mp h).count_eq_two

/-- An entry of a value, without weight and remark. -/
def plainEntry (value : String) : Entry := ⟨value, 600, 0, .enabled, none⟩

/-- A set with a value that stands in it three times. -/
def stuttering : RecordSet where
  domain := "example.com"
  host := "www"
  type := .a
  line := defaultLine
  priority := none
  weighting := .disabled
  entries := ["192.0.2.1", "192.0.2.2", "192.0.2.1", "192.0.2.1"].map plainEntry

theorem stuttering_named :
    stuttering.fault? = some (.repeatedValue 2 "192.0.2.1") ∧
      stuttering.FirstFault (.repeatedValue 2 "192.0.2.1") ∧
      (stuttering.valuesBefore 3).count "192.0.2.1" = 2 := by
  have hfault : stuttering.fault? = some (.repeatedValue 2 "192.0.2.1") := by decide
  obtain ⟨-, hfirst, hsecond, -⟩ := validation_exact stuttering
  exact ⟨hfault, (hfirst _).mp hfault, hsecond 2 _ hfault⟩

end RecordSet

end WeightedDns
