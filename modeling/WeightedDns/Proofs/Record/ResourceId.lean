import WeightedDns.Proofs.Json.RoundTrip
import WeightedDns.Proofs.Text.Trimming
import WeightedDns.Record.ResourceId

/-!
# Written resource IDs

The written form of a resource ID that has been read is read as that resource ID again. One that
was built from a list of record IDs is read as the list of the trimmed IDs, so that it comes back
exactly if no ID begins or ends with a blank (`text_faithful_iff`). Reading accepts a text exactly
if each of the parts between its commas has a character that is not blank.
-/

namespace WeightedDns.ResourceId

/-! ## Parts between separators -/

section

variable {separator : Char}

theorem splitAt_append {part : List Char} (h : separator ∉ part) (cs : List Char) :
    splitAt separator (part ++ separator :: cs) = part :: splitAt separator cs := by
  induction part with
  | nil => rw [List.nil_append, splitAt, if_pos rfl]
  | cons c part ih =>
    rw [List.mem_cons, not_or] at h
    rw [List.cons_append, splitAt, if_neg (Ne.symm h.1), ih h.2]

theorem splitAt_eq_singleton {part : List Char} (h : separator ∉ part) :
    splitAt separator part = [part] := by
  induction part with
  | nil => rfl
  | cons c part ih =>
    rw [List.mem_cons, not_or] at h
    rw [splitAt, if_neg (Ne.symm h.1), ih h.2]

/-- Parts without the separator are told apart again. -/
theorem splitAt_intercalate {between : String}
    (hbetween : between.toList = [separator]) {parts : List String} (hne : parts ≠ [])
    (h : ∀ part ∈ parts, separator ∉ part.toList) :
    splitAt separator (String.intercalate between parts).toList = parts.map String.toList := by
  induction parts with
  | nil => exact (hne rfl).elim
  | cons part rest ih =>
    rw [List.forall_mem_cons] at h
    cases rest with
    | nil => rw [String.intercalate_singleton, splitAt_eq_singleton h.1]; rfl
    | cons part' rest =>
      have hrest := ih (List.cons_ne_nil _ _) h.2
      rw [String.intercalate_cons_cons, String.toList_append, String.toList_append,
        List.append_assoc, hbetween]
      exact (splitAt_append h.1 _).trans (congrArg _ hrest)

/-- The first part ends at the first separator, where there is one. -/
theorem exists_splitAt_eq_cons (separator : Char) (cs : List Char) : ∃ part parts,
    splitAt separator cs = part :: parts ∧ separator ∉ part ∧
      ∀ other ∈ parts, separator ∉ other := by
  induction cs with
  | nil => exact ⟨[], [], rfl, List.not_mem_nil, fun _ h => nomatch h⟩
  | cons c cs ih =>
    obtain ⟨part, parts, hparts, hpart, hothers⟩ := ih
    by_cases hc : c = separator
    · refine ⟨[], part :: parts, ?_, List.not_mem_nil, ?_⟩
      · rw [splitAt, if_pos hc, hparts]
      · exact List.forall_mem_cons.mpr ⟨hpart, hothers⟩
    · refine ⟨c :: part, parts, ?_, ?_, hothers⟩
      · rw [splitAt, if_neg hc, hparts]
      · rw [List.mem_cons, not_or]
        exact ⟨Ne.symm hc, hpart⟩

theorem splitAt_ne_nil (cs : List Char) : splitAt separator cs ≠ [] := by
  obtain ⟨part, parts, hparts, -, -⟩ := exists_splitAt_eq_cons separator cs
  rw [hparts]
  exact List.cons_ne_nil _ _

/-- The parts with the separator between them are the text again. -/
theorem intercalate_splitAt (cs : List Char) :
    [separator].intercalate (splitAt separator cs) = cs := by
  induction cs with
  | nil => rfl
  | cons c cs ih =>
    by_cases hc : c = separator
    · rw [splitAt, if_pos hc, List.intercalate_cons_of_ne_nil (splitAt_ne_nil cs), ih, hc]
      rfl
    · obtain ⟨part, parts, hcs, -, -⟩ := exists_splitAt_eq_cons separator cs
      rw [hcs] at ih
      rw [splitAt, if_neg hc, hcs]
      cases parts with
      | nil => simpa using ih
      | cons part' parts =>
        rw [List.intercalate_cons_cons] at ih ⊢
        rw [List.cons_append, List.cons_append, ih]

theorem separator_not_mem_of_mem_splitAt {cs part : List Char}
    (h : part ∈ splitAt separator cs) : separator ∉ part := by
  obtain ⟨first, parts, hparts, hfirst, hothers⟩ := exists_splitAt_eq_cons separator cs
  rw [hparts] at h
  rcases List.mem_cons.mp h with rfl | hmem
  · exact hfirst
  · exact hothers part hmem

end

/-! ## Record IDs -/

/-- A text that is kept as a part of a resource ID: it is not empty, has no comma, and neither
begins nor ends with a blank. -/
structure IsPart (s : String) : Prop where
  ne_empty : s ≠ ""
  no_comma : ',' ∉ s.toList
  begins : ∀ c ∈ s.toList.head?, Text.isBlankChar c = false
  ends : ∀ c ∈ s.toList.getLast?, Text.isBlankChar c = false

theorem isPart_iff {s : String} :
    IsPart s ↔ s ≠ "" ∧ ',' ∉ s.toList ∧ s.toList.head?.any Text.isBlankChar = false ∧
      s.toList.getLast?.any Text.isBlankChar = false := by
  rw [Option.any_eq_false, Option.any_eq_false]
  exact ⟨fun h => ⟨h.ne_empty, h.no_comma, by simpa using h.begins, by simpa using h.ends⟩,
    fun ⟨hne, hcomma, hbegins, hends⟩ =>
      ⟨hne, hcomma, by simpa using hbegins, by simpa using hends⟩⟩

instance (s : String) : Decidable (IsPart s) := decidable_of_iff' _ isPart_iff

theorem IsPart.trimChars_eq {s : String} (h : IsPart s) : Text.trimChars s.toList = s.toList :=
  Text.trimChars_eq_self h.begins h.ends

theorem isRecordId_iff {s : String} :
    isRecordId s = true ↔ Text.isBlank s = false ∧ ',' ∉ s.toList := by
  simp [isRecordId]

/-- Trimming a record ID leaves a part. -/
theorem isPart_trim {s : String} (h : isRecordId s = true) : IsPart (Text.trim s) := by
  obtain ⟨hblank, hcomma⟩ := isRecordId_iff.mp h
  have hchars : (Text.trim s).toList = Text.trimChars s.toList := String.toList_ofList
  refine ⟨?_, ?_, ?_, ?_⟩
  · rw [Ne, Text.trim_eq_empty_iff, hblank]
    exact Bool.false_ne_true
  · rw [hchars]
    exact fun hmem => hcomma (Text.trimChars_sublist.subset hmem)
  · rw [hchars]
    exact Text.head?_trimChars
  · rw [hchars]
    exact Text.getLast?_trimChars

theorem new?_eq_some_iff {ids : List String} {r : ResourceId} :
    new? ids = some r ↔ ids ≠ [] ∧ (∀ s ∈ ids, isRecordId s = true) ∧ r = ⟨ids⟩ := by
  rw [new?]
  split
  next h =>
    rw [Bool.and_eq_true, List.all_eq_true] at h
    obtain ⟨hne, hids⟩ := h
    rw [Option.some_inj]
    exact ⟨fun heq => ⟨by simpa using hne, hids, heq.symm⟩, fun heq => heq.2.2.symm⟩
  next h =>
    refine ⟨fun heq => (nomatch heq), fun ⟨hne, hids, _⟩ => (h ?_).elim⟩
    rw [Bool.and_eq_true, List.all_eq_true]
    exact ⟨by simpa using hne, hids⟩

/-! ## Reading what is written -/

/-- Reading joined texts without commas trims them, and fails if one is blank. -/
theorem parse?_join {ids : List String} (hne : ids ≠ []) (h : ∀ s ∈ ids, ',' ∉ s.toList) :
    parse? (join ids) = if ids.any Text.isBlank then none else some ⟨ids.map Text.trim⟩ := by
  have hparts : (splitAt ',' (join ids).toList).map
      (fun part => String.ofList (Text.trimChars part)) = ids.map Text.trim := by
    rw [join, splitAt_intercalate rfl hne h, List.map_map]
    rfl
  have hblank : (ids.map Text.trim).any (· == "") = ids.any Text.isBlank := by
    rw [List.any_map]
    congr 1
    funext s
    rw [Bool.eq_iff_iff, Function.comp_apply, beq_iff_eq, Text.trim_eq_empty_iff]
  rw [parse?, hparts, hblank]

/-- A resource ID is read from its written form. -/
theorem parse?_text {id : ResourceId} (hne : id.ids ≠ []) (h : ∀ s ∈ id.ids, IsPart s) :
    parse? id.text = some id := by
  have hfilled : ¬ id.ids.any Text.isBlank = true := by
    rw [List.any_eq_true]
    rintro ⟨s, hs, hblank⟩
    rw [← Text.trim_eq_empty_iff, Text.trim, (h s hs).trimChars_eq, String.ofList_toList] at hblank
    exact (h s hs).ne_empty hblank
  have htrimmed : id.ids.map Text.trim = id.ids := by
    refine (List.map_congr_left fun s hs => ?_).trans (List.map_id _)
    rw [Text.trim, (h s hs).trimChars_eq, String.ofList_toList, id_eq]
  rw [text, parse?_join hne fun s hs => (h s hs).no_comma, if_neg hfilled, htrimmed]

/-- Every text is that of the parts between its commas. -/
theorem join_splitAt (s : String) : join ((splitAt ',' s.toList).map String.ofList) = s := by
  have hlists : ((splitAt ',' s.toList).map String.ofList).map String.toList =
      splitAt ',' s.toList := by
    rw [List.map_map]
    exact (List.map_congr_left fun _ _ => String.toList_ofList).trans (List.map_id _)
  rw [join, ← String.toList_inj, String.toList_intercalate, hlists]
  exact intercalate_splitAt s.toList

/-- What is read is a list of trimmed record IDs, and the text is what those IDs have as written
form before they are trimmed. -/
theorem parse?_eq_some_iff {s : String} {r : ResourceId} :
    parse? s = some r ↔
      ∃ id, new? id.ids = some id ∧ s = id.text ∧ r = ⟨id.ids.map Text.trim⟩ := by
  constructor
  · intro h
    have hne : (splitAt ',' s.toList).map String.ofList ≠ [] := by
      simpa using splitAt_ne_nil s.toList
    have hcomma : ∀ id ∈ (splitAt ',' s.toList).map String.ofList, ',' ∉ id.toList := by
      rw [List.forall_mem_map]
      intro part hpart
      rw [String.toList_ofList]
      exact separator_not_mem_of_mem_splitAt hpart
    rw [← join_splitAt s, parse?_join hne hcomma] at h
    split at h
    next => cases h
    next hfilled =>
      rw [Bool.not_eq_true, List.any_eq_false] at hfilled
      refine ⟨⟨_⟩, new?_eq_some_iff.mpr ⟨hne, fun id hid => ?_, rfl⟩, (join_splitAt s).symm,
        (Option.some.inj h).symm⟩
      exact isRecordId_iff.mpr ⟨Bool.eq_false_iff.mpr (hfilled id hid), hcomma id hid⟩
  · rintro ⟨id, hnew, rfl, rfl⟩
    obtain ⟨hne, hids, -⟩ := new?_eq_some_iff.mp hnew
    have hfilled : ¬ id.ids.any Text.isBlank = true := by
      rw [Bool.not_eq_true, List.any_eq_false]
      exact fun s hs => Bool.eq_false_iff.mp (isRecordId_iff.mp (hids s hs)).1
    rw [text, parse?_join hne fun s hs => (isRecordId_iff.mp (hids s hs)).2, if_neg hfilled]

theorem isPart_of_parse? {s : String} {r : ResourceId} (h : parse? s = some r) :
    r.ids ≠ [] ∧ ∀ id ∈ r.ids, IsPart id := by
  obtain ⟨id, hnew, -, rfl⟩ := parse?_eq_some_iff.mp h
  obtain ⟨hne, hids, -⟩ := new?_eq_some_iff.mp hnew
  refine ⟨by simpa using hne, ?_⟩
  rw [List.forall_mem_map]
  exact fun s hs => isPart_trim (hids s hs)

theorem isSome_parse?_iff {s : String} :
    (parse? s).isSome = true ↔
      ∀ part ∈ splitAt ',' s.toList, ∃ c ∈ part, Text.isBlankChar c = false := by
  have hempty : ∀ part, (String.ofList (Text.trimChars part) == "") = true ↔
      ∀ c ∈ part, Text.isBlankChar c = true := by
    intro part
    rw [beq_iff_eq, ← String.toList_inj, String.toList_ofList, ← Text.trimChars_eq_nil_iff]
    rfl
  rw [parse?]
  simp only [List.any_map, List.any_eq_true, Function.comp_apply, hempty]
  split
  next h =>
    obtain ⟨part, hpart, hblank⟩ := h
    refine iff_of_false Bool.false_ne_true fun hfilled => ?_
    obtain ⟨c, hc, hclear⟩ := hfilled part hpart
    rw [hblank c hc] at hclear
    cases hclear
  next h =>
    refine iff_of_true rfl fun part hpart => ?_
    by_contra hblank
    push Not at hblank
    exact h ⟨part, hpart, fun c hc => by simpa using hblank c hc⟩

/-- Read a resource ID from a JSON text. -/
def ofJsonText? (s : String) : Option ResourceId := (Json.parse? s).bind ofJson?

/-- The JSON form is read as the written form is. -/
theorem ofJsonText?_compact (r : ResourceId) :
    ofJsonText? r.toJson.compact = parse? r.text := by
  have hprinted : r.toJson.compact = r.toJson.pretty := by
    simp only [toJson, Json.pretty, Json.prettyAt]
  have hread : Json.parse? r.toJson.pretty = some r.toJson := Json.parse?_pretty (.text r.text)
  rw [ofJsonText?, hprinted, hread]
  rfl

/-- A resource ID that was read comes back from its written form and from its JSON form. One that
was built from record IDs comes back with these IDs trimmed, which is as it was exactly if no ID
begins or ends with a blank. A text is read exactly if every part of it has a character that is
not blank. -/
theorem text_faithful_iff (ids : List String) (s : String) :
    (∀ r, new? ids = some r →
      parse? r.text = some ⟨ids.map Text.trim⟩ ∧
      ofJsonText? r.toJson.compact = some ⟨ids.map Text.trim⟩ ∧
      (parse? r.text = some r ↔ ∀ id ∈ ids, Text.trim id = id) ∧
      (ofJsonText? r.toJson.compact = some r ↔ ∀ id ∈ ids, Text.trim id = id)) ∧
    (∀ r, parse? s = some r →
      parse? r.text = some r ∧ ofJsonText? r.toJson.compact = some r) ∧
    ((parse? s).isSome = true ↔
      ∀ part ∈ splitAt ',' s.toList, ∃ c ∈ part, Text.isBlankChar c = false) := by
  simp only [ofJsonText?_compact]
  refine ⟨?_, ?_, isSome_parse?_iff⟩
  · intro r hnew
    obtain ⟨-, -, rfl⟩ := new?_eq_some_iff.mp hnew
    have hread : parse? (text ⟨ids⟩) = some ⟨ids.map Text.trim⟩ :=
      parse?_eq_some_iff.mpr ⟨⟨ids⟩, hnew, rfl, rfl⟩
    have hiff : parse? (text ⟨ids⟩) = some ⟨ids⟩ ↔ ∀ id ∈ ids, Text.trim id = id := by
      rw [hread, Option.some_inj, mk.injEq]
      exact ⟨fun heq => List.map_inj_left.mp (heq.trans (List.map_id _).symm),
        fun heq => (List.map_congr_left heq).trans (List.map_id _)⟩
    exact ⟨hread, hread, hiff, hiff⟩
  · intro r hparse
    obtain ⟨hne, hparts⟩ := isPart_of_parse? hparse
    exact ⟨parse?_text hne hparts, parse?_text hne hparts⟩

/-- IDs with blanks inside are kept, and blanks around the parts of a text are not. -/
theorem spaced_faithful :
    new? ["rec 1", "102"] = some ⟨["rec 1", "102"]⟩ ∧
    ofJsonText? (toJson ⟨["rec 1", "102"]⟩).compact = some ⟨["rec 1", "102"]⟩ ∧
    parse? " rec 1,\t102" = some ⟨["rec 1", "102"]⟩ ∧
    parse? (text ⟨["rec 1", "102"]⟩) = some ⟨["rec 1", "102"]⟩ := by
  have hnew : new? ["rec 1", "102"] = some ⟨["rec 1", "102"]⟩ := by decide
  have hparse : parse? " rec 1,\t102" = some ⟨["rec 1", "102"]⟩ := by decide
  obtain ⟨hbuilt, hread, -⟩ := text_faithful_iff ["rec 1", "102"] " rec 1,\t102"
  exact ⟨hnew, (hbuilt _ hnew).2.2.2.mpr (by decide), hparse, (hread _ hparse).1⟩

/-- An ID between blanks is accepted, and lost when the written form is read. -/
theorem padded_not_faithful :
    ¬ ∀ (ids : List String) (r : ResourceId), new? ids = some r → parse? r.text = some r := by
  intro h
  have hread := h [" 101 "] ⟨[" 101 "]⟩ (by decide)
  revert hread
  decide

end WeightedDns.ResourceId
