import Mathlib.Data.List.Induction
import WeightedDns.Json.Record
import WeightedDns.Proofs.Json.RoundTrip

/-!
# The order of members

The members of an object that has no key twice are put in the order of their keys when a value is
settled, and otherwise stay what they are. A `Reordering` is any such change of a value. A record
is found in an object whatever the order of its members is (`exists_members?`), and so is read the
same before and after. Members that are in the order of their keys already stay where they are
(`settled_object_of_sorted`).
-/

namespace WeightedDns.Json

/-! ## Induction -/

/-- What holds of an array if it holds of its items, and of an object if it holds of its members,
holds of every value. -/
theorem induction_parts {motive : Json → Prop} (null : motive .null)
    (bool : ∀ b, motive (.bool b)) (number : ∀ n, motive (.number n))
    (text : ∀ s, motive (.text s))
    (array : ∀ items : List Json, (∀ j ∈ items, motive j) → motive (.array items))
    (object : ∀ members : List (String × Json), (∀ m ∈ members, motive m.2) →
      motive (.object members))
    (unreadable : motive .unreadable) (j : Json) : motive j :=
  @Json.rec motive (fun items => ∀ j ∈ items, motive j)
    (fun members => ∀ m ∈ members, motive m.2) (fun m => motive m.2)
    null bool number text array object unreadable
    (fun _ h => nomatch h) (fun _ _ hhead htail => List.forall_mem_cons.mpr ⟨hhead, htail⟩)
    (fun _ h => nomatch h) (fun _ _ hhead htail => List.forall_mem_cons.mpr ⟨hhead, htail⟩)
    (fun _ _ hj => hj) j

/-! ## Members put in one by one -/

theorem insertMember_perm {α : Type} {key : String} {value : α} {members : List (String × α)}
    (h : key ∉ members.map (·.1)) :
    (insertMember key value members).Perm ((key, value) :: members) := by
  induction members with
  | nil => exact .refl _
  | cons m rest ih =>
    obtain ⟨k, v⟩ := m
    rw [List.map_cons, List.mem_cons, not_or] at h
    unfold insertMember
    split
    · exact .refl _
    · rw [if_neg h.1]
      exact ((ih h.2).cons _).trans (.swap _ _ _)

theorem foldl_insertMember_perm {α : Type} (members done : List (String × α))
    (h : (members.map (·.1) ++ done.map (·.1)).Nodup) :
    (members.foldl (fun done m => insertMember m.1 m.2 done) done).Perm (members ++ done) := by
  induction members generalizing done with
  | nil => exact .refl _
  | cons m rest ih =>
    obtain ⟨k, v⟩ := m
    rw [List.map_cons, List.cons_append, List.nodup_cons, List.mem_append, not_or] at h
    have hinsert : (insertMember k v done).Perm ((k, v) :: done) := insertMember_perm h.1.2
    have hkeys : (rest.map (·.1) ++ (insertMember k v done).map (·.1)).Perm
        (k :: (rest.map (·.1) ++ done.map (·.1))) :=
      ((hinsert.map (·.1)).append_left _).trans List.perm_middle
    have hnodup : (k :: (rest.map (·.1) ++ done.map (·.1))).Nodup :=
      List.nodup_cons.mpr ⟨by simpa using h.1, h.2⟩
    rw [List.foldl_cons]
    exact (ih _ (hkeys.nodup_iff.mpr hnodup)).trans
      ((hinsert.append_left _).trans List.perm_middle)

theorem settledMembers_eq_foldl (members done : List (String × Json)) :
    settledMembers members done = (members.map fun m => (m.1, m.2.settled)).foldl
      (fun done m => insertMember m.1 m.2 done) done := by
  induction members generalizing done with
  | nil => rfl
  | cons m members ih => exact ih _

theorem settledMembers_perm (members done : List (String × Json))
    (h : (members.map (·.1) ++ done.map (·.1)).Nodup) :
    (settledMembers members done).Perm (members.map (fun m => (m.1, m.2.settled)) ++ done) := by
  rw [settledMembers_eq_foldl]
  refine foldl_insertMember_perm _ _ ?_
  rwa [List.map_map]

/-- What is in a list of members is the new one or has been in it. -/
theorem forall_mem_insertMember {α : Type} {P : String × α → Prop} {key : String} {value : α}
    {members : List (String × α)} (hnew : P (key, value)) (h : ∀ m ∈ members, P m) :
    ∀ m ∈ insertMember key value members, P m := by
  induction members with
  | nil => exact List.forall_mem_singleton.mpr hnew
  | cons m rest ih =>
    obtain ⟨k, v⟩ := m
    rw [List.forall_mem_cons] at h
    unfold insertMember
    split
    · exact List.forall_mem_cons.mpr ⟨hnew, List.forall_mem_cons.mpr h⟩
    split
    · exact List.forall_mem_cons.mpr ⟨hnew, h.2⟩
    · exact List.forall_mem_cons.mpr ⟨h.1, ih h.2⟩

theorem sorted_insertMember {α : Type} {key : String} {value : α} {members : List (String × α)}
    (h : (members.map (·.1)).Pairwise (· < ·)) :
    ((insertMember key value members).map (·.1)).Pairwise (· < ·) := by
  induction members with
  | nil => exact List.pairwise_singleton _ _
  | cons m rest ih =>
    obtain ⟨k, v⟩ := m
    rw [List.map_cons, List.pairwise_cons] at h
    unfold insertMember
    split
    next hlt =>
      refine List.pairwise_cons.mpr ⟨?_, List.pairwise_cons.mpr h⟩
      exact List.forall_mem_cons.mpr ⟨hlt, fun l hl => String.lt_trans hlt (h.1 l hl)⟩
    next hle =>
      split
      next heq => exact List.pairwise_cons.mpr ⟨fun l hl => heq ▸ h.1 l hl, h.2⟩
      next hne =>
        have hlt : k < key := Std.lt_of_le_of_ne (String.not_lt.mp hle) (Ne.symm hne)
        refine List.pairwise_cons.mpr ⟨?_, ih h.2⟩
        rw [List.forall_mem_map]
        exact forall_mem_insertMember hlt fun m hm => h.1 _ (List.mem_map_of_mem hm)

theorem sorted_foldl_insertMember {α : Type} (members : List (String × α))
    {done : List (String × α)} (h : (done.map (·.1)).Pairwise (· < ·)) :
    ((members.foldl (fun done m => insertMember m.1 m.2 done) done).map (·.1)).Pairwise
      (· < ·) := by
  induction members generalizing done with
  | nil => exact h
  | cons m members ih => exact ih (sorted_insertMember h)

theorem mem_insertMember_iff {α : Type} {key k : String} {value v : α}
    {members : List (String × α)} (h : (members.map (·.1)).Pairwise (· < ·)) :
    (k, v) ∈ insertMember key value members ↔
      (k, v) = (key, value) ∨ k ≠ key ∧ (k, v) ∈ members := by
  induction members with
  | nil => simp [insertMember]
  | cons m rest ih =>
    obtain ⟨l, u⟩ := m
    rw [List.map_cons, List.pairwise_cons] at h
    have hrest : ∀ key', ¬ l < key' → (k, v) ∈ rest → k ≠ key' := by
      rintro key' hle hmem rfl
      exact hle (h.1 _ (List.mem_map_of_mem hmem))
    unfold insertMember
    split
    next hlt =>
      have hother : (k, v) ∈ (l, u) :: rest → k ≠ key := by
        rintro hmem rfl
        rcases List.mem_cons.mp hmem with heq | hmem
        · exact String.lt_irrefl _ ((Prod.mk.inj heq).1 ▸ hlt)
        · exact String.lt_asymm hlt (h.1 _ (List.mem_map_of_mem hmem))
      rw [List.mem_cons]
      exact or_congr_right ⟨fun hmem => ⟨hother hmem, hmem⟩, fun hmem => hmem.2⟩
    split
    next heq =>
      subst heq
      rw [List.mem_cons, List.mem_cons]
      refine or_congr_right ⟨fun hmem => ⟨hrest key (String.lt_irrefl _) hmem, .inr hmem⟩, ?_⟩
      rintro ⟨hne, hmem | hmem⟩
      · exact (hne (Prod.mk.inj hmem).1).elim
      · exact hmem
    next hne =>
      rw [List.mem_cons, ih h.2, List.mem_cons]
      constructor
      · rintro (hmem | hmem | hmem)
        · exact .inr ⟨fun heq => hne (heq.symm.trans (Prod.mk.inj hmem).1), .inl hmem⟩
        · exact .inl hmem
        · exact .inr ⟨hmem.1, .inr hmem.2⟩
      · rintro (hmem | ⟨hkey, hmem | hmem⟩)
        · exact .inr (.inl hmem)
        · exact .inl hmem
        · exact .inr (.inr ⟨hkey, hmem⟩)

/-- Of several members with one key the last one counts. -/
theorem mem_foldl_insertMember_iff {α : Type} {members : List (String × α)} {key : String}
    {value : α} :
    (key, value) ∈ members.foldl (fun done m => insertMember m.1 m.2 done) [] ↔
      ∃ before after, members = before ++ (key, value) :: after ∧ key ∉ after.map (·.1) := by
  -- by induction from the end, since the member put in last decides
  induction members using List.reverseRecOn with
  | nil => simp
  | append_singleton members m ih =>
    rw [List.foldl_append, List.foldl_cons, List.foldl_nil,
      mem_insertMember_iff (sorted_foldl_insertMember _ .nil), ih]
    constructor
    · rintro (heq | ⟨hne, before, after, rfl, hlast⟩)
      · exact ⟨members, [], by rw [heq], List.not_mem_nil⟩
      · refine ⟨before, after ++ [m], by simp, ?_⟩
        simpa using ⟨by simpa using hlast, hne⟩
    · rintro ⟨before, after, hsplit, hlast⟩
      rcases List.eq_nil_or_concat after with rfl | ⟨after, n, rfl⟩
      · exact .inl (List.append_inj_right' hsplit rfl |> List.singleton_inj.mp).symm
      · rw [List.concat_eq_append, ← List.cons_append, ← List.append_assoc] at hsplit
        obtain ⟨rfl, heq⟩ := List.append_inj' hsplit rfl
        obtain rfl := List.singleton_inj.mp heq
        simp only [List.concat_eq_append, List.map_append, List.mem_append, not_or] at hlast
        exact .inr ⟨by simpa using hlast.2, before, after, rfl, hlast.1⟩

/-- A key behind all others goes to the end. -/
theorem insertMember_of_sorted {α : Type} {key : String} {value : α} {members : List (String × α)}
    (h : (members.map (·.1) ++ [key]).Pairwise (· < ·)) :
    insertMember key value members = members ++ [(key, value)] := by
  induction members with
  | nil => rfl
  | cons m rest ih =>
    obtain ⟨k, v⟩ := m
    rw [List.map_cons, List.cons_append, List.pairwise_cons] at h
    have hlt : k < key := h.1 key (List.mem_append_right _ List.mem_cons_self)
    have hne : key ≠ k := by
      rintro rfl
      exact String.lt_irrefl _ hlt
    rw [insertMember, if_neg (String.lt_asymm hlt), if_neg hne, ih h.2, List.cons_append]

/-- Members in the order of their keys stay as they are when they are put in one by one. -/
theorem foldl_insertMember_of_sorted {α : Type} {members done : List (String × α)}
    (h : (done.map (·.1) ++ members.map (·.1)).Pairwise (· < ·)) :
    members.foldl (fun done m => insertMember m.1 m.2 done) done = done ++ members := by
  induction members generalizing done with
  | nil => rw [List.foldl_nil, List.append_nil]
  | cons m members ih =>
    rw [List.map_cons, List.append_cons] at h
    have hlast : insertMember m.1 m.2 done = done ++ [m] :=
      insertMember_of_sorted (List.pairwise_append.mp h).1
    rw [List.foldl_cons, hlast, ih (by rwa [List.map_append]), ← List.append_cons]

theorem settled_object_of_sorted {members : List (String × Json)}
    (h : (members.map (·.1)).Pairwise (· < ·)) :
    settled (.object members) = .object (members.map fun m => (m.1, m.2.settled)) := by
  rw [settled, settledMembers_eq_foldl, foldl_insertMember_of_sorted, List.nil_append]
  rwa [List.map_nil, List.nil_append, List.map_map]

theorem settledItems_eq_map (items : List Json) : settledItems items = items.map settled := by
  induction items with
  | nil => rfl
  | cons j rest ih => rw [settledItems, ih, List.map_cons]

theorem forall_mem_settledMembers {P : Json → Prop} {members done : List (String × Json)}
    (h : ∀ m ∈ members, P m.2.settled) (hdone : ∀ m ∈ done, P m.2) :
    ∀ m ∈ settledMembers members done, P m.2 := by
  induction members generalizing done with
  | nil => exact hdone
  | cons m rest ih =>
    rw [List.forall_mem_cons] at h
    exact ih h.2 (forall_mem_insertMember h.1 hdone)

/-- Settling keeps a value plain. -/
theorem Plain.settled {j : Json} (h : Plain j) : Plain j.settled := by
  induction h with
  | null => exact .null
  | bool b => exact .bool b
  | whole hleast hgreatest => exact .whole hleast hgreatest
  | text s => exact .text s
  | array _ ih =>
    rw [Json.settled, settledItems_eq_map]
    exact .array (List.forall_mem_map.mpr ih)
  | object _ ih => exact .object (forall_mem_settledMembers ih fun _ h => nomatch h)

/-- A change of values that keeps them apart from the order of the members in objects. -/
structure Reordering where
  apply : Json → Json
  apply_null : apply .null = .null
  apply_bool (b : Bool) : apply (.bool b) = .bool b
  apply_number (n : Number) : apply (.number n) = .number n
  apply_text (s : String) : apply (.text s) = .text s
  apply_array (items : List Json) : apply (.array items) = .array (items.map apply)
  apply_object (members : List (String × Json)) (h : (members.map (·.1)).Nodup) :
    ∃ reordered, apply (.object members) = .object reordered ∧
      reordered.Perm (members.map fun m => (m.1, apply m.2))

namespace Reordering

attribute [simp] apply_null apply_bool apply_number apply_text apply_array

/-- No change. -/
def unchanged : Reordering where
  apply := id
  apply_null := rfl
  apply_bool _ := rfl
  apply_number _ := rfl
  apply_text _ := rfl
  apply_array items := by rw [List.map_id, id]
  apply_object members _ := ⟨members, rfl, by simp⟩

/-- The members in the order of their keys. -/
def settling : Reordering where
  apply := settled
  apply_null := rfl
  apply_bool _ := rfl
  apply_number _ := rfl
  apply_text _ := rfl
  apply_array items := by rw [settled, settledItems_eq_map]
  apply_object members h :=
    ⟨_, rfl, by simpa using settledMembers_perm members [] (by simpa using h)⟩

end Reordering

/-! ## Members of a record -/

theorem member?_of_mem {members : List (String × Json)} (hnodup : (members.map (·.1)).Nodup)
    {key : String} {j : Json} (h : (key, j) ∈ members) : member? key members = some j := by
  induction members with
  | nil => cases h
  | cons m rest ih =>
    obtain ⟨k, i⟩ := m
    rw [List.map_cons, List.nodup_cons] at hnodup
    rcases List.mem_cons.mp h with heq | hmem
    · cases heq
      rw [member?, if_pos rfl]
    · have hne : k ≠ key := by
        rintro rfl
        exact hnodup.1 (List.mem_map.mpr ⟨_, hmem, rfl⟩)
      rw [member?, if_neg hne, ih hnodup.2 hmem]

theorem member?_eq_none {members : List (String × Json)} {key : String}
    (h : key ∉ members.map (·.1)) : member? key members = none := by
  induction members with
  | nil => rfl
  | cons m rest ih =>
    obtain ⟨k, i⟩ := m
    rw [List.map_cons, List.mem_cons, not_or] at h
    rw [member?, if_neg (Ne.symm h.1), ih h.2]

theorem repeated_eq_false (names : List String) {members : List (String × Json)}
    (h : (members.map (·.1)).Nodup) : repeated names members = false := by
  have honce : ∀ name, (members.filter fun m => m.1 == name).length ≤ 1 := by
    intro name
    calc (members.filter fun m => m.1 == name).length
        = (members.map (·.1)).count name := by
          rw [List.count, List.countP_map, List.countP_eq_length_filter]
          rfl
      _ ≤ 1 := List.nodup_iff_count.mp h name
  rw [repeated, List.any_eq_false]
  intro name _
  simpa using honce name

/-- A member is there with a value, and read from it in every way. -/
def Members.Finds (m : Members) (name : String) (j : Json) : Prop :=
  (∀ {α : Type} (read : Json → Option α), m.required name read = read j) ∧
    (∀ {α : Type} (read : Json → Option α), m.optional name read = asOptional? read j) ∧
    ∀ {α : Type} (read : Json → Option α) (default : α), m.withDefault name read default = read j

/-- A member is not there, and has its default. -/
def Members.Lacks (m : Members) (name : String) : Prop :=
  ∀ {α : Type} (read : Json → Option α) (default : α),
    m.withDefault name read default = some default

theorem Members.finds_of_get? {m : Members} {name : String} {j : Json}
    (h : m.get? name = some j) : m.Finds name j := by
  refine ⟨fun read => ?_, fun read => ?_, fun read default => ?_⟩
  · rw [required, h]
    rfl
  · rw [optional, h]
  · rw [withDefault, h]

theorem Members.lacks_of_get? {m : Members} {name : String} (h : m.get? name = none) :
    m.Lacks name := by
  intro α read default
  rw [withDefault, h]

/-- A record is found in an object whose keys are names of its members, in any order. -/
theorem exists_members? {names : List String} (closed : Bool)
    {members reordered : List (String × Json)} {f : Json → Json} (hnames : names.Nodup)
    (hkeys : (members.map (·.1)).Sublist names)
    (hperm : reordered.Perm (members.map fun m => (m.1, f m.2))) :
    ∃ m, members? names closed (.object reordered) = some m ∧
      (∀ x ∈ members, m.Finds x.1 (f x.2)) ∧ ∀ name ∉ members.map (·.1), m.Lacks name := by
  have hsame : (reordered.map (·.1)).Perm (members.map (·.1)) := by
    simpa [List.map_map, Function.comp_def] using hperm.map (·.1)
  have hnodup : (reordered.map (·.1)).Nodup := hsame.nodup_iff.mpr (hnames.sublist hkeys)
  have hknown : ∀ m ∈ reordered, names.contains m.1 = true := by
    intro m hm
    rw [List.contains_iff_mem]
    exact hkeys.subset (hsame.subset (List.mem_map_of_mem hm))
  have hclosed : (closed && reordered.any fun m => !names.contains m.1) = false := by
    rw [Bool.and_eq_false_iff, List.any_eq_false]
    refine .inr fun m hm => ?_
    rw [hknown m hm]
    exact Bool.false_ne_true
  refine ⟨⟨true, reordered⟩, ?_, fun x hx => Members.finds_of_get? ?_,
    fun name hname => Members.lacks_of_get? ?_⟩
  · rw [members?, repeated_eq_false names hnodup, hclosed, List.filter_eq_self.mpr hknown]
    rfl
  · exact member?_of_mem hnodup (hperm.mem_iff.mpr (List.mem_map_of_mem hx))
  · exact member?_eq_none fun h => hname (hsame.mem_iff.mp h)

/-- Each of the fields is a member, and no other member has its key. -/
def Holds (members fields : List (String × Json)) : Prop :=
  ∀ x ∈ fields, members.filter (·.1 == x.1) = [x]

theorem member?_eq_head?_filter (key : String) (members : List (String × Json)) :
    member? key members = ((members.filter (·.1 == key)).head?).map (·.2) := by
  induction members with
  | nil => rfl
  | cons m rest ih =>
    obtain ⟨k, j⟩ := m
    by_cases h : k = key
    · simp [member?, h]
    · simp [member?, h, ih]

/-- A record is found in an object that holds its fields, whatever other members there are. -/
theorem exists_members?_of_holds {members fields : List (String × Json)}
    (h : Holds members fields) :
    ∃ m, members? (fields.map (·.1)) false (.object members) = some m ∧
      ∀ x ∈ fields, m.Finds x.1 x.2 := by
  have hrepeated : repeated (fields.map (·.1)) members = false := by
    rw [repeated, List.any_map, List.any_eq_false]
    intro x hx
    simp [h x hx]
  refine ⟨_, by rw [members?, hrepeated]; rfl, fun x hx => Members.finds_of_get? ?_⟩
  have hfilter : (members.filter fun m => (fields.map (·.1)).contains m.1).filter (·.1 == x.1) =
      members.filter (·.1 == x.1) := by
    rw [List.filter_filter]
    refine List.filter_congr fun m _ => ?_
    rw [Bool.and_eq_left_iff_imp, beq_iff_eq, List.contains_iff_mem]
    exact fun hkey => hkey ▸ List.mem_map_of_mem hx
  rw [Members.get?, member?_eq_head?_filter, hfilter, h x hx]
  rfl

/-- A member is told from the others by its key. -/
theorem filter_key_of_perm {key : String} {j : Json} {members others : List (String × Json)}
    (hperm : members.Perm ((key, j) :: others)) (hothers : ∀ m ∈ others, m.1 ≠ key) :
    members.filter (·.1 == key) = [(key, j)] ∧ (members.filter (·.1 != key)).Perm others := by
  have hnone : others.filter (·.1 == key) = [] := by
    rw [List.filter_eq_nil_iff]
    exact fun m hm => by simpa using hothers m hm
  have hall : others.filter (·.1 != key) = others := by
    rw [List.filter_eq_self]
    exact fun m hm => by simpa using hothers m hm
  constructor
  · have hfilter := hperm.filter (·.1 == key)
    rw [List.filter_cons_of_pos (by simp), hnone] at hfilter
    exact List.perm_singleton.mp hfilter
  · have hfilter := hperm.filter (·.1 != key)
    rwa [List.filter_cons_of_neg (by simp), hall] at hfilter

theorem readableMembers_iff {depth : Nat} {members : List (String × Json)} :
    readableMembers depth members = true ↔ ∀ m ∈ members, m.2.readable depth = true := by
  induction members with
  | nil => simp [readableMembers]
  | cons m rest ih => rw [readableMembers, Bool.and_eq_true, ih, List.forall_mem_cons]

/-! ## Values of members -/

section

variable {α : Type} (r : Reordering)

namespace Reordering

@[simp] theorem apply_ofUInt16 (n : UInt16) : r.apply (ofUInt16 n) = ofUInt16 n :=
  r.apply_number _

@[simp] theorem apply_ofUInt32 (n : UInt32) : r.apply (ofUInt32 n) = ofUInt32 n :=
  r.apply_number _

@[simp] theorem apply_ofUInt64 (n : UInt64) : r.apply (ofUInt64 n) = ofUInt64 n :=
  r.apply_number _

@[simp] theorem apply_ofOption (write : α → Json) (a : Option α) :
    r.apply (ofOption write a) = ofOption (fun a => r.apply (write a)) a := by
  cases a
  · exact r.apply_null
  · rfl

@[simp] theorem apply_ofList (write : α → Json) (items : List α) :
    r.apply (ofList write items) = ofList (fun a => r.apply (write a)) items := by
  rw [ofList, r.apply_array, List.map_map]
  rfl

/-- The members of a record that has been written are found, in whatever order they are. -/
theorem exists_members? (names : List String) (closed : Bool) {j : Json}
    {members : List (String × Json)} (hj : j = .object members) (hnames : names.Nodup)
    (hkeys : (members.map (·.1)).Sublist names) :
    ∃ m, (r.apply j).members? names closed = some m ∧
      (∀ x ∈ members, m.Finds x.1 (r.apply x.2)) ∧ ∀ name ∉ members.map (·.1), m.Lacks name := by
  obtain ⟨reordered, happly, hperm⟩ := r.apply_object members (hnames.sublist hkeys)
  rw [hj, happly]
  exact Json.exists_members? closed hnames hkeys hperm

end Reordering

/-- What is written is read back, in whatever order the members of objects are. -/
def Survives (write : α → Json) (read : Json → Option α) : Prop :=
  ∀ (r : Reordering) (a : α), read (r.apply (write a)) = some a

/-- What is written is read back, both as it is written and once it is settled. -/
def RoundTrips (write : α → Json) (read : Json → Option α) : Prop :=
  ∀ a, read (write a) = some a ∧ read (write a).settled = some a

theorem Survives.roundTrips {write : α → Json} {read : Json → Option α} (h : Survives write read) :
    RoundTrips write read :=
  fun a => ⟨h .unchanged a, h .settling a⟩

variable {write : α → Json} {read : Json → Option α}

theorem asOptional?_of_read {j : Json} {a : α} (h : read j = some a) (hnull : read .null = none) :
    asOptional? read j = some (some a) := by
  rw [asOptional?, h]
  · rfl
  · rintro rfl
    rw [hnull] at h
    cases h

theorem asOptional?_ofOption (h : ∀ a, read (write a) = some a) (hnull : read .null = none)
    (a : Option α) : asOptional? read (ofOption write a) = some a := by
  cases a with
  | none => rfl
  | some a => exact asOptional?_of_read (h a) hnull

@[simp] theorem readable_text (depth : Nat) (s : String) : (text s).readable depth = true := rfl

@[simp] theorem readable_ofUInt64 (depth : Nat) (n : UInt64) :
    (ofUInt64 n).readable depth = true :=
  rfl

@[simp] theorem readable_ofOption_iff {depth : Nat} {a : Option α} :
    (ofOption write a).readable depth = true ↔ ∀ b ∈ a, (write b).readable depth = true := by
  cases a <;> simp [ofOption, readable]

/-- A member that is left out where it is missing is read as an option. -/
theorem withDefault_optionalMember {r : Reordering} {m : Members} {name : String} {a : Option α}
    (hfinds : ∀ x ∈ optionalMember name write a, m.Finds x.1 (r.apply x.2))
    (hlacks : a = none → m.Lacks name)
    (h : ∀ a, read (r.apply (write a)) = some a) (hnull : read .null = none) :
    m.withDefault name (asOptional? read) none = some a := by
  cases a with
  | none => exact hlacks rfl _ _
  | some a =>
    rw [optionalMember, List.forall_mem_singleton] at hfinds
    rw [hfinds.2.2]
    exact asOptional?_of_read (h a) hnull

theorem keys_optionalMember_sublist (name : String) (write : α → Json) (a : Option α) :
    ((optionalMember name write a).map (·.1)).Sublist [name] := by
  cases a
  · exact List.nil_sublist _
  · exact .refl _

theorem asList?_ofList (h : ∀ a, read (write a) = some a) (items : List α) :
    asList? read (ofList write items) = some items := by
  change (items.map write).mapM read = some items
  induction items with
  | nil => rfl
  | cons a items ih => rw [List.map_cons, List.mapM_cons, h, ih]; rfl

theorem plain_ofNat {n : Nat} (h : n < UInt64.size) : Plain (ofNat n) := by
  have hleast : leastWhole ≤ 0 := by decide
  refine .whole (by omega) ?_
  rw [greatestWhole]
  omega

theorem plain_ofUInt16 (n : UInt16) : Plain (ofUInt16 n) :=
  plain_ofNat (Nat.lt_trans n.toNat_lt_size (by decide))

theorem plain_ofUInt32 (n : UInt32) : Plain (ofUInt32 n) :=
  plain_ofNat (Nat.lt_trans n.toNat_lt_size (by decide))

theorem plain_ofOption (h : ∀ a, Plain (write a)) (a : Option α) : Plain (ofOption write a) := by
  cases a with
  | none => exact .null
  | some a => exact h a

theorem plain_ofList (h : ∀ a, Plain (write a)) (items : List α) : Plain (ofList write items) :=
  .array (List.forall_mem_map.mpr fun a _ => h a)

theorem forall_mem_optionalMember {p : String × Json → Prop} (key : String)
    (h : ∀ a, p (key, write a)) (a : Option α) : ∀ m ∈ optionalMember key write a, p m := by
  cases a with
  | none => exact fun _ hm => nomatch hm
  | some a => exact List.forall_mem_singleton.mpr (h a)

@[simp] theorem asOptional?_text (a : Option String) :
    asOptional? asText? (ofOption .text a) = some a :=
  asOptional?_ofOption asText?_text rfl a

@[simp] theorem asOptional?_ofUInt16 (a : Option UInt16) :
    asOptional? asUInt16? (ofOption .ofUInt16 a) = some a :=
  asOptional?_ofOption asUInt16?_ofUInt16 rfl a

@[simp] theorem asOptional?_ofUInt32 (a : Option UInt32) :
    asOptional? asUInt32? (ofOption .ofUInt32 a) = some a :=
  asOptional?_ofOption asUInt32?_ofUInt32 rfl a

@[simp] theorem asOptional?_ofUInt64 (a : Option UInt64) :
    asOptional? asUInt64? (ofOption .ofUInt64 a) = some a :=
  asOptional?_ofOption asUInt64?_ofUInt64 rfl a

end

end WeightedDns.Json
