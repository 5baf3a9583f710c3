import Mathlib.Data.List.Nodup
import WeightedDns.Proofs.Wire.Flattening
import WeightedDns.Proofs.Wire.Query
import WeightedDns.Wire.Endpoint

/-!
# Queries are unambiguous

A query is read back as the pairs that were written: parted at its ampersands, each part at its
first equals sign, and both sides decoded (`read?_render`). So no value can add a parameter to a
request or take one away, and the requests for two records have one query only if the records
agree in every field (`query_unambiguous`).
-/

namespace WeightedDns.Wire.Query

open Json

/-! ## Reading -/

/-- A pair from its text. -/
def readPair? (part : List Char) : Option (String × String) := do
  let (key, value) ← Endpoint.splitAtMark? ['='] part
  some (← Text.Percent.decode? (String.ofList key), ← Text.Percent.decode? (String.ofList value))

/-- The pairs of a query; the empty one has none. -/
def read? (query : String) : Option (List (String × String)) :=
  if query = "" then some [] else (ResourceId.splitAt '&' query.toList).mapM readPair?

theorem splitAtMark?_append {mark : Char} {before : List Char} (h : mark ∉ before)
    (after : List Char) :
    Endpoint.splitAtMark? [mark] (before ++ mark :: after) = some (before, after) := by
  induction before with
  | nil => simp [Endpoint.splitAtMark?]
  | cons c before ih =>
    rw [List.mem_cons, not_or] at h
    simp [Endpoint.splitAtMark?, ih h.2, h.1]

theorem readPair?_pairText (p : String × String) : readPair? (pairText p) = some p := by
  have hequals : '=' ∉ (Text.Percent.encode p.1).toList :=
    Text.Percent.not_mem_encode (by decide) (by decide) p.1
  simp [readPair?, pairText, splitAtMark?_append hequals, Text.Percent.decode?_encode]

theorem render_eq_empty_iff {ps : List (String × String)} : render ps = "" ↔ ps = [] := by
  refine ⟨fun h => ?_, fun h => h ▸ rfl⟩
  by_contra hne
  -- a pair has an equals sign
  have hsplit := splitAt_render hne
  obtain ⟨p, ps, rfl⟩ := List.exists_cons_of_ne_nil hne
  rw [h] at hsplit
  have hfirst : [] = pairText p := (List.cons.inj hsplit).1
  simp [pairText] at hfirst

theorem read?_render (ps : List (String × String)) : read? (render ps) = some ps := by
  have hpairs : (ps.map pairText).mapM readPair? = some ps := by
    induction ps with
    | nil => rfl
    | cons p ps ih => simp [readPair?_pairText, ih]
  rw [read?]
  split
  next h => rw [render_eq_empty_iff.mp h]
  next h => rw [splitAt_render (mt render_eq_empty_iff.mpr h), hpairs]

/-- A value with separators in it stays one value. -/
example : read? (text (.object [("Value", .array [.text "v=a&TTL=1", .null, .text ""])])) =
    some [("Value.1", "v=a&TTL=1"), ("Value.3", "")] := by
  decide +kernel

theorem render_injective : Function.Injective render := by
  intro ps qs h
  rw [← Option.some_inj, ← read?_render ps, h, read?_render]

/-! ## Characters -/

/-- The characters that join the parts of a query. -/
def joiners : List Char := ['&', '=']

theorem written_render (ps : List (String × String)) :
    Text.Percent.Written joiners (render ps).toList := by
  have hjoiner : ∀ c ∈ joiners, Text.Percent.Written joiners [c] := fun c hc =>
    .single (.inr hc) .nil
  have hencode : ∀ s, Text.Percent.Written joiners (Text.Percent.encode s).toList := fun s =>
    (Text.Percent.written_encode s).mono (List.nil_subset _)
  have hpair : ∀ p, Text.Percent.Written joiners (pairText p) := fun p =>
    (hencode p.1).append ((hjoiner '=' (by decide)).append (hencode p.2))
  have htext : ∀ p : String × String,
      (Text.Percent.encode p.1 ++ "=" ++ Text.Percent.encode p.2).toList = pairText p := by
    intro p
    simp [pairText]
  rw [render, String.toList_intercalate, List.map_map]
  induction ps with
  | nil => exact .nil
  | cons p ps ih =>
    cases ps with
    | nil => simpa [htext] using hpair p
    | cons q ps =>
      simp only [List.map_cons, List.intercalate_cons_cons, Function.comp_apply, htext] at ih ⊢
      exact ((hpair p).append (hjoiner '&' (by decide))).append ih

theorem written_text (j : Json) : Text.Percent.Written joiners (text j).toList :=
  written_render _

/-! ## Requests for records -/

theorem memberPairs_eq_flatMap (members : List (String × Json)) :
    memberPairs "" members = members.flatMap fun m => pairs m.1 m.2 := by
  induction members with
  | nil => rfl
  | cons m members ih =>
    rw [memberPairs, ih]
    rfl

/-- Parameters of one pair each with different keys are the pairs. -/
theorem flatten_perm_of_single {members : List (String × Json)}
    (hnodup : (members.map (·.1)).Nodup) (h : ∀ m ∈ members, Single m.2) :
    (flatten (.object members)).Perm (members.map fun m => (m.1, parameterText m.2)) := by
  have hsettled : (settledMembers members []).Perm (members.map fun m => (m.1, m.2.settled)) := by
    simpa using settledMembers_perm members [] (by simpa using hnodup)
  have hpairs : (memberPairs "" (settledMembers members [])).Perm
      (members.map fun m => (m.1, parameterText m.2)) := by
    rw [← memberPairs_of_single h, memberPairs_eq_flatMap, memberPairs_eq_flatMap]
    exact hsettled.flatMap_right _
  have hkeys : ((memberPairs "" (settledMembers members [])).map (·.1)).Nodup := by
    rw [(hpairs.map _).nodup_iff, List.map_map]
    exact hnodup
  rw [flatten, settled, pairs]
  simpa using (foldl_insertMember_perm _ [] (by simpa using hkeys)).trans (hpairs.append_right [])

theorem toString_injective : Function.Injective (toString : Nat → String) := by
  intro m n h
  rw [Nat.toString_eq_ofList_toDigits, Nat.toString_eq_ofList_toDigits, ← String.toList_inj,
    String.toList_ofList, String.toList_ofList] at h
  rw [← Nat.ofDigitChars_ten_toDigits (n := m), h, Nat.ofDigitChars_ten_toDigits]

theorem recordType_name_injective : Function.Injective RecordType.name := by
  intro t t' h
  have hjson : t.toJson = t'.toJson := congrArg Json.text h
  rw [← Option.some_inj, ← RecordType.ofJson?_toJson isNull t, hjson, RecordType.ofJson?_toJson]

/-- The parameters of a request about a record: what the request is about under a key, then the
fields. -/
def recordParameters (key : String) (r : RecordChange) : List (String × Json) :=
  [(key, .text r.id), ("RR", .text r.host), ("Type", r.type.toJson), ("Value", .text r.value),
    ("TTL", .ofUInt32 r.ttl), ("Line", .text r.line)] ++
    optionalMember "Priority" .ofUInt16 r.priority

/-- The pairs of these parameters. -/
def recordPairs (key : String) (r : RecordChange) : List (String × String) :=
  [(key, r.id), ("RR", r.host), ("Type", r.type.name), ("Value", r.value),
    ("TTL", toString r.ttl.toNat), ("Line", r.line)] ++
    r.priority.toList.map fun p => ("Priority", toString p.toNat)

theorem map_recordParameters (key : String) (r : RecordChange) :
    (recordParameters key r).map (fun m => (m.1, parameterText m.2)) = recordPairs key r := by
  rw [recordParameters, recordPairs]
  cases r.priority <;> rfl

section

variable {key : String} (hkey : key ∉ ["RR", "Type", "Value", "TTL", "Line", "Priority"])

include hkey

theorem nodup_keys_recordParameters (r : RecordChange) :
    ((recordParameters key r).map (·.1)).Nodup := by
  have hnames : ["RR", "Type", "Value", "TTL", "Line", "Priority"].Nodup := by decide
  rw [recordParameters, List.map_append]
  exact (List.nodup_cons.mpr ⟨hkey, hnames⟩).sublist
    ((List.Sublist.refl [key, "RR", "Type", "Value", "TTL", "Line"]).append
      (keys_optionalMember_sublist _ _ _))

theorem flatten_recordParameters (r : RecordChange) :
    (flatten (.object (recordParameters key r))).Perm (recordPairs key r) := by
  rw [← map_recordParameters]
  refine flatten_perm_of_single (nodup_keys_recordParameters hkey r) ?_
  rw [recordParameters, List.forall_mem_append]
  simp only [List.forall_mem_cons]
  exact ⟨⟨fun _ => rfl, fun _ => rfl, fun _ => rfl, fun _ => rfl, fun _ => rfl, fun _ => rfl,
    fun _ h => nomatch h⟩, forall_mem_optionalMember _ (fun _ _ => rfl) _⟩

/-- Requests have one query only if what they are about agrees in every field. -/
theorem recordParameters_injective :
    Function.Injective fun r : RecordChange => text (.object (recordParameters key r)) := by
  intro r r' h
  have hflatten : flatten (.object (recordParameters key r)) =
      flatten (.object (recordParameters key r')) := render_injective h
  have hmem : ∀ p ∈ recordPairs key r, p ∈ recordPairs key r' := by
    intro p hp
    rwa [← (flatten_recordParameters hkey r').mem_iff, ← hflatten,
      (flatten_recordParameters hkey r).mem_iff]
  have hnodup : ((recordPairs key r').map (·.1)).Nodup := by
    rw [← map_recordParameters, List.map_map]
    exact nodup_keys_recordParameters hkey r'
  have hfield : ∀ k {v v'}, (k, v) ∈ recordPairs key r → (k, v') ∈ recordPairs key r' → v = v' :=
    fun _ _ _ hv hv' => (Prod.mk.inj (List.inj_on_of_nodup_map hnodup (hmem _ hv) hv' rfl)).2
  have hid : r.id = r'.id := hfield key (by simp [recordPairs]) (by simp [recordPairs])
  have hhost : r.host = r'.host := hfield "RR" (by simp [recordPairs]) (by simp [recordPairs])
  have htype : r.type = r'.type :=
    recordType_name_injective (hfield "Type" (by simp [recordPairs]) (by simp [recordPairs]))
  have hvalue : r.value = r'.value :=
    hfield "Value" (by simp [recordPairs]) (by simp [recordPairs])
  have httl : r.ttl = r'.ttl := UInt32.toNat_inj.mp
    (toString_injective (hfield "TTL" (by simp [recordPairs]) (by simp [recordPairs])))
  have hline : r.line = r'.line :=
    hfield "Line" (by simp [recordPairs]) (by simp [recordPairs])
  -- the priority is a parameter only where there is one
  have hpriority : r.priority = r'.priority := by
    have hlength := congrArg List.length hflatten
    rw [(flatten_recordParameters hkey r).length_eq,
      (flatten_recordParameters hkey r').length_eq] at hlength
    cases hp : r.priority with
    | none =>
      cases hp' : r'.priority with
      | none => rfl
      | some p' => simp [recordPairs, hp, hp'] at hlength
    | some p =>
      cases hp' : r'.priority with
      | none => simp [recordPairs, hp, hp'] at hlength
      | some p' =>
        have htext : toString p.toNat = toString p'.toNat :=
          hfield "Priority" (by simp [recordPairs, hp]) (by simp [recordPairs, hp'])
        rw [UInt16.toNat_inj.mp (toString_injective htext)]
  cases r
  cases r'
  simp_all

end

/-! ## Queries -/

/-- The pairs of a query are the last leaves of the parameters under their keys, in the order of
the bytes of the keys, and are read back from it. A query has no other characters than
unreserved ones, triplets and the two that join its parts. Different pairs have different queries,
and so have two requests that add a record, or two that change one, if they differ in a field. Where
the members of objects are in order, the leaves are those of the parameters as they stand. -/
theorem query_unambiguous :
    (∀ (j : Json) (key value : String), (key, value) ∈ flatten j ↔ Final j.settled key value) ∧
    (∀ j : Json, Ordered j → j.settled = j) ∧
    (∀ j : Json, (flatten j).Pairwise fun p q => Digest.utf8 p.1 < Digest.utf8 q.1) ∧
    (∀ j : Json, read? (text j) = some (flatten j)) ∧
    (∀ j : Json, Text.Percent.Written joiners (text j).toList) ∧
    (∀ i j : Json, flatten i ≠ flatten j → text i ≠ text j) ∧
    (Function.Injective fun r : NewRecord => text (Call.addRecord r).parameters) ∧
    Function.Injective fun r : RecordChange => text (Call.changeRecord r).parameters := by
  refine ⟨fun j key value => mem_flatten_iff, fun _ => Ordered.settled_eq, fun j => ?_,
    fun j => read?_render _, written_text, fun i j hne => render_injective.ne hne, ?_, recordParameters_injective (by decide)⟩
  · exact (List.pairwise_map.mp (sorted_flatten j)).imp Digest.utf8_lt_utf8
  · -- a new record is told apart by its zone where a record that is changed is by its ID
    intro r r' h
    have hkey : "DomainName" ∉ ["RR", "Type", "Value", "TTL", "Line", "Priority"] := by decide
    have hfields :
        (⟨r.domain, r.host, r.type, r.value, r.ttl, r.line, r.priority⟩ : RecordChange) =
          ⟨r'.domain, r'.host, r'.type, r'.value, r'.ttl, r'.line, r'.priority⟩ :=
      recordParameters_injective hkey h
    cases r
    cases r'
    simpa using hfields

/-- Two paths of this value have the key `a.b`, and three lead through an array. -/
def nested : Json :=
  .object [("", .array [.text "y&z"]), ("a", .object [("b", .number (.whole 1))]),
    ("a.b", .text "x"), ("c", .array [.number (.whole 10), .object [("d", .bool true)]]),
    ("e", .null)]

theorem ordered_nested : Ordered nested := by
  refine .object (by decide) ?_
  simp only [List.forall_mem_cons]
  refine ⟨.array ?_, .object (by decide) ?_, .text _, .array ?_, .null, fun _ h => nomatch h⟩
  · simp [Ordered.text]
  · simp [Ordered.number]
  · simp only [List.forall_mem_cons]
    refine ⟨.number _, .object (by decide) ?_, fun _ h => nomatch h⟩
    simp [Ordered.bool]

/-- The later of two members counts under the key that both have. -/
theorem nested_unambiguous :
    text nested = ".1=y%26z&a.b=x&c.1=10&c.2.d=true" ∧
      read? (text nested) =
        some [(".1", "y&z"), ("a.b", "x"), ("c.1", "10"), ("c.2.d", "true")] ∧
      Leaf nested [.member "a", .member "b"] "1" ∧ ¬ Final nested "a.b" "1" ∧
      Final nested "a.b" "x" ∧ Final nested "c.2.d" "true" ∧ Final nested ".1" "y&z" := by
  have hflatten : flatten nested =
      [(".1", "y&z"), ("a.b", "x"), ("c.1", "10"), ("c.2.d", "true")] := by decide +kernel
  obtain ⟨hfinal, hsettled, -, hread, -⟩ := query_unambiguous
  have hpairs : ∀ key value, Final nested key value ↔
      (key, value) ∈ [(".1", "y&z"), ("a.b", "x"), ("c.1", "10"), ("c.2.d", "true")] := by
    intro key value
    rw [← hflatten, hfinal, hsettled nested ordered_nested]
  refine ⟨by decide +kernel, ?_, ?_, ?_, ?_, ?_, ?_⟩
  · rw [hread, hflatten]
  · refine .member (List.mem_cons_of_mem _ List.mem_cons_self) ?_
    exact .member List.mem_cons_self (.whole 1)
  all_goals
    rw [hpairs]
    decide

end WeightedDns.Wire.Query
