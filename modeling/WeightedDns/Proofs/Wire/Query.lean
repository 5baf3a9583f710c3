import WeightedDns.Proofs.Json.Saved
import WeightedDns.Proofs.Text.Percent
import WeightedDns.Wire.Action
import WeightedDns.Wire.Query

/-!
# Reading queries

The pairs of a query are told apart again at its separators, since encoding leaves none inside
them (`splitAt_render`). In a query for records the parameters are in the order of their keys as
they are given (`flatten_listRecords`), and the number and the size of the page that it asks for
are read back (`queryNumber_listRecords`).
-/

namespace WeightedDns.Wire

open Json

/-! ## Pairs in a query -/

theorem encode_toString (n : Nat) :
    (Text.Percent.encode (toString n)).toList = Nat.toDigits 10 n := by
  have hdigit : ∀ c ∈ Nat.toDigits 10 n, Text.Percent.encodeChar c = [c] := by
    intro c hc
    have hdigit : c.isDigit = true := Nat.isDigit_of_mem_toDigits (by decide) (by decide) hc
    rw [Text.Percent.encodeChar, if_pos]
    simp [Text.Percent.isUnreserved, Char.isAlphanum, hdigit]
  rw [Text.Percent.encode, Nat.toString_eq_ofList_toDigits, String.toList_ofList,
    String.toList_ofList, List.flatMap_def, List.map_congr_left hdigit, ← List.flatMap_def,
    List.flatMap_singleton']

/-- A pair as it stands in a query. -/
def pairText (p : String × String) : List Char :=
  (Text.Percent.encode p.1).toList ++ '=' :: (Text.Percent.encode p.2).toList

/-- The pairs of a query are told apart again. -/
theorem splitAt_render {ps : List (String × String)} (h : ps ≠ []) :
    ResourceId.splitAt '&' (Query.render ps).toList = ps.map pairText := by
  rw [Query.render, ResourceId.splitAt_intercalate rfl (by simpa using h), List.map_map]
  · exact List.map_congr_left fun p _ => by simp [pairText]
  · rw [List.forall_mem_map]
    intro p _
    simp [Text.Percent.not_mem_encode (c := '&') (by decide) (by decide)]

/-! ## Queries for records -/

/-- The text of a parameter that is a text or a number. -/
def parameterText : Json → String
  | .text s => s
  | .number n => numberText n
  | _ => ""

/-- A parameter of one pair. -/
def Single (j : Json) : Prop := ∀ path, Query.pairs path j.settled = [(path, parameterText j)]

theorem memberPairs_of_single {members : List (String × Json)} (h : ∀ m ∈ members, Single m.2) :
    Query.memberPairs "" (members.map fun m => (m.1, m.2.settled)) =
      members.map fun m => (m.1, parameterText m.2) := by
  induction members with
  | nil => rfl
  | cons m members ih =>
    rw [List.forall_mem_cons] at h
    rw [List.map_cons, Query.memberPairs, h.1, ih h.2]
    rfl

/-- Parameters of one pair each that are in the order of their keys stay in it. -/
theorem flatten_of_sorted {members : List (String × Json)}
    (hsorted : (members.map (·.1)).Pairwise (· < ·)) (h : ∀ m ∈ members, Single m.2) :
    Query.flatten (.object members) = members.map fun m => (m.1, parameterText m.2) := by
  rw [Query.flatten, settled_object_of_sorted hsorted, Query.pairs, memberPairs_of_single h,
    foldl_insertMember_of_sorted, List.nil_append]
  rwa [List.map_nil, List.nil_append, List.map_map]

/-- The parameters of a query for records behind those of its page. -/
def filters (query : RecordQuery) : List (String × Json) :=
  Call.keyword "RRKeyWord" query.hostKeyword ++
    optionalMember "Type" RecordType.toJson query.type ++
    Call.keyword "ValueKeyWord" query.valueKeyword

theorem keys_filters_sublist (query : RecordQuery) :
    ((filters query).map (·.1)).Sublist ["RRKeyWord", "Type", "ValueKeyWord"] := by
  rw [filters, List.map_append, List.map_append]
  exact ((keys_optionalMember_sublist _ _ _).append (keys_optionalMember_sublist _ _ _)).append
    (keys_optionalMember_sublist _ _ _)

theorem single_filters (query : RecordQuery) : ∀ m ∈ filters query, Single m.2 := by
  rw [filters, List.forall_mem_append, List.forall_mem_append]
  exact ⟨⟨forall_mem_optionalMember _ (fun _ _ => rfl) _,
    forall_mem_optionalMember _ (fun _ _ => rfl) _⟩, forall_mem_optionalMember _ (fun _ _ => rfl) _⟩

/-- The pairs of a query for records: after the domain come those of the page. -/
theorem flatten_listRecords (domain : String) (query : RecordQuery) {request : PageRequest}
    (h : request.clamped maxPageSize = request) :
    Query.flatten (Call.listRecords domain query request).parameters =
      ("DomainName", domain) :: ("PageNumber", toString request.page.toNat) ::
        ("PageSize", toString request.size.toNat) ::
        (filters query).map fun m => (m.1, parameterText m.2) := by
  have hparameters : (Call.listRecords domain query request).parameters =
      .object (("DomainName", .text domain) :: ("PageNumber", .ofUInt32 request.page) ::
        ("PageSize", .ofUInt32 request.size) :: filters query) := by
    simp only [Call.parameters, Call.pageParameters, h, filters, List.cons_append,
      List.nil_append, List.append_assoc]
  have hnames : ["DomainName", "PageNumber", "PageSize", "RRKeyWord", "Type",
      "ValueKeyWord"].Pairwise (· < ·) := by decide
  rw [hparameters, flatten_of_sorted]
  · rfl
  · exact hnames.sublist
      (.cons_cons _ (.cons_cons _ (.cons_cons _ (keys_filters_sublist query))))
  · simp only [List.forall_mem_cons]
    exact ⟨fun _ => rfl, fun _ => rfl, fun _ => rfl, single_filters query⟩

/-- The number under a key of a query. -/
def queryNumber (key : String) (query : String) : Nat :=
  match (ResourceId.splitAt '&' query.toList).findSome? (Text.expect? (key.toList ++ ['='])) with
  | some digits => Nat.ofDigitChars 10 digits 0
  | none => 0

/-- The parts of a query for records. -/
theorem exists_splitAt_listRecords (domain : String) (query : RecordQuery) {request : PageRequest}
    (h : request.clamped maxPageSize = request) :
    ∃ rest others,
      ResourceId.splitAt '&'
          (Query.text (Call.listRecords domain query request).parameters).toList =
        ("DomainName".toList ++ '=' :: rest) ::
        ("PageNumber".toList ++ '=' :: Nat.toDigits 10 request.page.toNat) ::
        ("PageSize".toList ++ '=' :: Nat.toDigits 10 request.size.toNat) :: others := by
  have hdomain : (Text.Percent.encode "DomainName").toList = "DomainName".toList := by decide
  have hnumber : (Text.Percent.encode "PageNumber").toList = "PageNumber".toList := by decide
  have hsize : (Text.Percent.encode "PageSize").toList = "PageSize".toList := by decide
  refine ⟨(Text.Percent.encode domain).toList,
    ((filters query).map fun m => (m.1, parameterText m.2)).map pairText, ?_⟩
  rw [Query.text, flatten_listRecords domain query h, splitAt_render (List.cons_ne_nil _ _),
    List.map_cons, List.map_cons, List.map_cons, pairText, pairText, pairText, hdomain, hnumber,
    hsize, encode_toString, encode_toString]

/-- Number and size of a page are read from the query that asks for it. -/
theorem queryNumber_listRecords (domain : String) (query : RecordQuery) {request : PageRequest}
    (h : request.clamped maxPageSize = request) :
    queryNumber "PageNumber" (Query.text (Call.listRecords domain query request).parameters) =
        request.page.toNat ∧
      queryNumber "PageSize" (Query.text (Call.listRecords domain query request).parameters) =
        request.size.toNat := by
  obtain ⟨rest, others, hparts⟩ := exists_splitAt_listRecords domain query h
  have hread : ∀ (key : List Char) (n : Nat),
      Text.expect? (key ++ ['=']) (key ++ '=' :: Nat.toDigits 10 n) = some (Nat.toDigits 10 n) := by
    intro key n
    rw [Text.expect?_eq_some_iff, List.append_assoc, List.singleton_append]
  have hother : ∀ cs, Text.expect? ("PageNumber".toList ++ ['=']) ("DomainName".toList ++ cs) =
        none ∧
      Text.expect? ("PageSize".toList ++ ['=']) ("DomainName".toList ++ cs) = none ∧
      Text.expect? ("PageSize".toList ++ ['=']) ("PageNumber".toList ++ cs) = none :=
    fun _ => ⟨rfl, rfl, rfl⟩
  constructor
  · rw [queryNumber, hparts, List.findSome?_cons, (hother _).1, List.findSome?_cons, hread]
    exact Nat.ofDigitChars_ten_toDigits
  · rw [queryNumber, hparts, List.findSome?_cons, (hother _).2.1, List.findSome?_cons,
      (hother _).2.2, List.findSome?_cons, hread]
    exact Nat.ofDigitChars_ten_toDigits

end WeightedDns.Wire
