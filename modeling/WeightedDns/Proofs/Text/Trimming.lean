import Mathlib.Data.List.DropRight
import WeightedDns.Text.Blank

/-!
# Trimmed texts

What trimming leaves begins and ends with no blank (`head?_trimChars`, `getLast?_trimChars`), and
such a text is left as it is (`trimChars_eq_self`). Nothing is left exactly of a blank text
(`trim_eq_empty_iff`).
-/

namespace WeightedDns.Text

variable {cs : List Char}

theorem trimChars_eq_nil_iff : trimChars cs = [] ↔ ∀ c ∈ cs, isBlankChar c = true := by
  change (cs.dropWhile isBlankChar).rdropWhile isBlankChar = [] ↔ _
  rw [List.rdropWhile_eq_nil_iff]
  constructor
  · -- what begins behind the leading blanks would begin with a character that is none
    intro h
    rw [← List.dropWhile_eq_nil_iff]
    by_contra hne
    have hhead := List.head_dropWhile_not isBlankChar hne
    rw [h _ (List.head_mem hne)] at hhead
    cases hhead
  · exact fun h c hc => h c ((List.dropWhile_sublist _).subset hc)

theorem trim_eq_empty_iff {s : String} : trim s = "" ↔ isBlank s = true := by
  have hempty : trim s = "" ↔ trimChars s.toList = [] := by
    rw [trim, ← String.toList_inj, String.toList_ofList]
    rfl
  rw [hempty, trimChars_eq_nil_iff, isBlank, List.all_eq_true]

theorem head?_trimChars : ∀ c ∈ (trimChars cs).head?, isBlankChar c = false := by
  intro c hc
  have hfirst := List.head?_dropWhile_not isBlankChar cs
  obtain ⟨rest, hrest⟩ : trimChars cs <+: cs.dropWhile isBlankChar :=
    List.rdropWhile_prefix isBlankChar _
  cases htrim : trimChars cs with
  | nil =>
    rw [htrim] at hc
    cases hc
  | cons d ds =>
    rw [htrim] at hc
    obtain rfl : d = c := Option.mem_some.mp hc
    rw [← hrest, htrim] at hfirst
    exact hfirst

theorem getLast?_trimChars : ∀ c ∈ (trimChars cs).getLast?, isBlankChar c = false := by
  intro c hc
  obtain ⟨hne, hlast⟩ := List.mem_getLast?_eq_getLast hc
  rw [hlast, ← Bool.not_eq_true]
  exact List.rdropWhile_last_not isBlankChar _ hne

theorem dropWhile_eq_self {p : Char → Bool} (h : ∀ c ∈ cs.head?, p c = false) :
    cs.dropWhile p = cs := by
  cases cs with
  | nil => rfl
  | cons c cs => exact List.dropWhile_cons_of_neg (by simp [h c rfl])

theorem trimChars_eq_self (hbegins : ∀ c ∈ cs.head?, isBlankChar c = false)
    (hends : ∀ c ∈ cs.getLast?, isBlankChar c = false) : trimChars cs = cs := by
  rw [trimChars, dropWhile_eq_self hbegins, dropWhile_eq_self, List.reverse_reverse]
  rw [List.head?_reverse]
  exact hends

theorem trimChars_sublist : (trimChars cs).Sublist cs := by
  rw [trimChars, ← List.reverse_sublist, List.reverse_reverse]
  exact (List.dropWhile_sublist _).trans (List.dropWhile_sublist _).reverse

variable {p : Char → Bool} {front tail : List Char}

/-- What does not end in characters to be dropped stays. -/
theorem rdropWhile_append (hfront : ∀ c ∈ front.getLast?, p c = false) :
    (front ++ tail).rdropWhile p = front ++ tail.rdropWhile p := by
  have hhead : ∀ c ∈ front.reverse.head?, p c = false := by
    rw [List.head?_reverse]
    exact hfront
  rw [List.rdropWhile, List.rdropWhile, List.reverse_append, List.dropWhile_append,
    dropWhile_eq_self hhead]
  split
  · rename_i hempty
    rw [List.isEmpty_iff.mp hempty, List.reverse_reverse, List.reverse_nil, List.append_nil]
  · rw [List.reverse_append, List.reverse_reverse]

theorem rdropWhile_append_of_pos (htail : ∀ c ∈ tail, p c = true) :
    (front ++ tail).rdropWhile p = front.rdropWhile p := by
  rw [List.rdropWhile, List.reverse_append, List.dropWhile_append_of_pos, List.rdropWhile]
  intro c hc
  exact htail c (List.mem_reverse.mp hc)

end WeightedDns.Text
