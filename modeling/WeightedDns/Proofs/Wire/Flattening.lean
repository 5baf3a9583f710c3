import WeightedDns.Proofs.Json.Reordering
import WeightedDns.Wire.Query

/-!
# Flattened values

What the pairs of a value are is said without a traversal: a pair is a `Leaf` of the value under
the key of the path to it, and of several leaves under one key it is the last one in the order of
the value, in which items stand by their numbers and members by their keys (`Final`). These are
the pairs (`mem_flatten_iff`), and they are in the order of their keys (`sorted_flatten`).
-/

namespace WeightedDns.Wire.Query

open Json

/-! ## Leaves -/

/-- One step of a path into a value: to a member of an object, or to an item of an array, counted
from one. -/
inductive Step where
  | member (key : String)
  | item (place : Nat)

/-- How a step is named in a key. -/
def Step.name : Step → String
  | .member key => key
  | .item place => toString place

/-- The names of steps, each behind a point. -/
def dotted : List Step → String
  | [] => ""
  | step :: steps => "." ++ step.name ++ dotted steps

/-- The key of a path has the names of its steps with points between. At the top, an item has its
point all the same, and a member without a name leaves nothing in the key. -/
def keyOf : List Step → String
  | [] => ""
  | .item place :: steps => dotted (.item place :: steps)
  | .member key :: steps => if key = "" then keyOf steps else key ++ dotted steps

/-- A text, number or truth value stands at the end of a path, with the text that it has in a
query. -/
inductive Leaf : Json → List Step → String → Prop where
  | bool (b : Bool) : Leaf (.bool b) [] (if b then "true" else "false")
  | whole (n : Int) : Leaf (.number (.whole n)) [] (toString n)
  | float (x : Decimal.Binary64) : Leaf (.number (.float x)) [] (floatText x)
  | text (s : String) : Leaf (.text s) [] s
  | item {items : List Json} {index : Nat} {j : Json} {steps : List Step} {value : String}
      (hitem : items[index]? = some j) (h : Leaf j steps value) :
      Leaf (.array items) (.item (index + 1) :: steps) value
  | member {members : List (String × Json)} {key : String} {j : Json} {steps : List Step}
      {value : String} (hmember : (key, j) ∈ members) (h : Leaf j steps value) :
      Leaf (.object members) (.member key :: steps) value

/-- The order of paths where they first differ: by the numbers of items and the keys of members. -/
inductive Before : List Step → List Step → Prop where
  | item {m n : Nat} (h : m < n) (steps steps' : List Step) :
      Before (.item m :: steps) (.item n :: steps')
  | member {k l : String} (h : k < l) (steps steps' : List Step) :
      Before (.member k :: steps) (.member l :: steps')
  | deeper (step : Step) {steps steps' : List Step} (h : Before steps steps') :
      Before (step :: steps) (step :: steps')

/-- A pair is the last leaf of a value under its key. -/
def Final (j : Json) (key value : String) : Prop :=
  ∃ steps, Leaf j steps value ∧ keyOf steps = key ∧
    ∀ steps' value', Leaf j steps' value' → keyOf steps' = key →
      steps' = steps ∨ Before steps' steps

theorem Before.irrefl (steps : List Step) : ¬ Before steps steps := by
  induction steps with
  | nil => rintro ⟨⟩
  | cons step steps ih =>
    intro h
    cases h with
    | item h => exact Nat.lt_irrefl _ h
    | member h => exact String.lt_irrefl _ h
    | deeper _ h => exact ih h

theorem Before.asymm {s t : List Step} (h : Before s t) : ¬ Before t s := by
  induction h with
  | item h =>
    intro hback
    cases hback with
    | item hback => exact Nat.lt_asymm h hback
    | deeper => exact Nat.lt_irrefl _ h
  | member h =>
    intro hback
    cases hback with
    | member hback => exact String.lt_asymm h hback
    | deeper => exact String.lt_irrefl _ h
  | deeper _ _ ih =>
    intro hback
    cases hback with
    | item hback => exact Nat.lt_irrefl _ hback
    | member hback => exact String.lt_irrefl _ hback
    | deeper _ hback => exact ih hback

/-! ## The leaves one by one -/

/-- A leaf one step further from the top. -/
def behind (step : Step) (leaf : List Step × String) : List Step × String :=
  (step :: leaf.1, leaf.2)

mutual

/-- The leaves of a value in their order, each with its path. -/
def leaves : Json → List (List Step × String)
  | .null | .unreadable => []
  | .bool b => [([], if b then "true" else "false")]
  | .number n => [([], numberText n)]
  | .text s => [([], s)]
  | .array items => itemLeaves 1 items
  | .object members => memberLeaves members

/-- The leaves of items, the first of them with a place. -/
def itemLeaves (place : Nat) : List Json → List (List Step × String)
  | [] => []
  | j :: rest => (leaves j).map (behind (.item place)) ++ itemLeaves (place + 1) rest

/-- The leaves of members. -/
def memberLeaves : List (String × Json) → List (List Step × String)
  | [] => []
  | (key, j) :: rest => (leaves j).map (behind (.member key)) ++ memberLeaves rest

end

/-- The key of a path that begins where another one ends. -/
def keyBelow (path : String) (steps : List Step) : String :=
  if path = "" then keyOf steps else path ++ dotted steps

theorem keyBelow_nil (path : String) : keyBelow path [] = path := by
  unfold keyBelow
  split
  · rename_i hempty
    exact hempty.symm
  · exact String.append_empty

theorem keyBelow_item (path : String) (place : Nat) (steps : List Step) :
    keyBelow path (.item place :: steps) = keyBelow s!"{path}.{place}" steps := by
  have hpath : s!"{path}.{place}" = path ++ ("." ++ toString place) := by
    dsimp only [toString]
    rw [String.append_assoc]
  have hne : path ++ ("." ++ toString place) ≠ "" := by simp
  rw [hpath, keyBelow, keyBelow, if_neg hne]
  split
  · rename_i hempty
    rw [hempty, String.empty_append]
    rfl
  · rw [String.append_assoc]
    rfl

theorem keyBelow_member (path key : String) (steps : List Step) :
    keyBelow path (.member key :: steps) = keyBelow (extend path key) steps := by
  unfold extend
  by_cases hpath : path = ""
  · rw [if_pos hpath, keyBelow, if_pos hpath, keyBelow]
    rfl
  · have hextended : s!"{path}.{key}" = path ++ ("." ++ key) := by
      dsimp only [toString]
      rw [String.append_assoc]
    have hne : path ++ ("." ++ key) ≠ "" := by simp
    rw [if_neg hpath, hextended, keyBelow, if_neg hpath, keyBelow, if_neg hne, String.append_assoc]
    rfl

/-- The pair of a leaf below a path. -/
def pairBelow (path : String) (leaf : List Step × String) : String × String :=
  (keyBelow path leaf.1, leaf.2)

theorem map_pairBelow_behind {path path' : String} {step : Step}
    (h : ∀ steps, keyBelow path (step :: steps) = keyBelow path' steps)
    (leaves : List (List Step × String)) :
    (leaves.map (behind step)).map (pairBelow path) = leaves.map (pairBelow path') := by
  rw [List.map_map]
  exact List.map_congr_left fun leaf _ => congrArg (·, leaf.2) (h leaf.1)

theorem map_pairBelow_single (path value : String) :
    [([], value)].map (pairBelow path) = [(path, value)] := by
  rw [List.map_singleton, pairBelow, keyBelow_nil]

mutual

/-- The pairs of a value are its leaves with the keys of their paths. -/
theorem pairs_eq_map (path : String) : ∀ j, pairs path j = (leaves j).map (pairBelow path)
  | .null | .unreadable => rfl
  | .bool _ | .number _ | .text _ => (map_pairBelow_single path _).symm
  | .array items => itemPairs_eq_map path 1 items
  | .object members => memberPairs_eq_map path members

theorem itemPairs_eq_map (path : String) (place : Nat) :
    ∀ items, itemPairs path place items = (itemLeaves place items).map (pairBelow path)
  | [] => rfl
  | j :: rest => by
    rw [itemPairs, itemLeaves, List.map_append,
      map_pairBelow_behind (keyBelow_item path place), pairs_eq_map _ j,
      itemPairs_eq_map path (place + 1) rest]

theorem memberPairs_eq_map (path : String) :
    ∀ members, memberPairs path members = (memberLeaves members).map (pairBelow path)
  | [] => rfl
  | (key, j) :: rest => by
    rw [memberPairs, memberLeaves, List.map_append,
      map_pairBelow_behind (keyBelow_member path key), pairs_eq_map _ j,
      memberPairs_eq_map path rest]

end

theorem mem_itemLeaves_iff {place : Nat} {items : List Json} {leaf : List Step × String} :
    leaf ∈ itemLeaves place items ↔
      ∃ index j, items[index]? = some j ∧
        leaf ∈ (leaves j).map (behind (.item (place + index))) := by
  induction items generalizing place with
  | nil => simp [itemLeaves]
  | cons i rest ih =>
    rw [itemLeaves, List.mem_append, ih]
    constructor
    · rintro (h | ⟨index, j, hj, h⟩)
      · exact ⟨0, i, rfl, h⟩
      · refine ⟨index + 1, j, hj, ?_⟩
        rwa [Nat.add_right_comm, Nat.add_assoc] at h
    · rintro ⟨index, j, hj, h⟩
      cases index with
      | zero =>
        obtain rfl := Option.some.inj hj
        exact .inl h
      | succ index =>
        refine .inr ⟨index, j, hj, ?_⟩
        rwa [Nat.add_right_comm, Nat.add_assoc]

theorem mem_memberLeaves_iff {members : List (String × Json)} {leaf : List Step × String} :
    leaf ∈ memberLeaves members ↔
      ∃ m ∈ members, leaf ∈ (leaves m.2).map (behind (.member m.1)) := by
  induction members with
  | nil => simp [memberLeaves]
  | cons m rest ih => simp [memberLeaves, ih]

theorem leaf_of_mem_leaves {j : Json} {leaf : List Step × String} (h : leaf ∈ leaves j) :
    Leaf j leaf.1 leaf.2 := by
  induction j using Json.induction_parts generalizing leaf with
  | null => cases h
  | unreadable => cases h
  | bool b =>
    obtain rfl := List.mem_singleton.mp h
    exact .bool b
  | number n =>
    obtain rfl := List.mem_singleton.mp h
    cases n with
    | whole n => exact .whole n
    | float x => exact .float x
  | text s =>
    obtain rfl := List.mem_singleton.mp h
    exact .text s
  | array items ih =>
    obtain ⟨index, j, hj, hmem⟩ := mem_itemLeaves_iff.mp h
    obtain ⟨leaf, hleaf, rfl⟩ := List.mem_map.mp hmem
    rw [Nat.add_comm]
    exact .item hj (ih j (List.mem_of_getElem? hj) hleaf)
  | object members ih =>
    obtain ⟨m, hm, hmem⟩ := mem_memberLeaves_iff.mp h
    obtain ⟨leaf, hleaf, rfl⟩ := List.mem_map.mp hmem
    exact .member hm (ih m hm hleaf)

theorem mem_leaves_iff {j : Json} {steps : List Step} {value : String} :
    (steps, value) ∈ leaves j ↔ Leaf j steps value := by
  refine ⟨leaf_of_mem_leaves, fun h => ?_⟩
  induction h with
  | bool b => exact List.mem_singleton_self _
  | whole n => exact List.mem_singleton_self _
  | float x => exact List.mem_singleton_self _
  | text s => exact List.mem_singleton_self _
  | @item items index j steps value hitem _ ih =>
    refine mem_itemLeaves_iff.mpr ⟨index, j, hitem, ?_⟩
    rw [Nat.add_comm]
    exact List.mem_map_of_mem ih
  | @member members key j steps value hmember _ ih =>
    exact mem_memberLeaves_iff.mpr ⟨(key, j), hmember, List.mem_map_of_mem ih⟩

/-! ## The order of the leaves -/

/-- The members of every object in a value are in the order of their keys. -/
inductive Ordered : Json → Prop where
  | null : Ordered .null
  | unreadable : Ordered .unreadable
  | bool (b : Bool) : Ordered (.bool b)
  | number (n : Number) : Ordered (.number n)
  | text (s : String) : Ordered (.text s)
  | array {items : List Json} (h : ∀ j ∈ items, Ordered j) : Ordered (.array items)
  | object {members : List (String × Json)} (hsorted : (members.map (·.1)).Pairwise (· < ·))
      (h : ∀ m ∈ members, Ordered m.2) : Ordered (.object members)

/-- Leaves stand in the order of their paths. -/
def InOrder (leaves : List (List Step × String)) : Prop :=
  leaves.Pairwise fun l m => Before l.1 m.1

theorem InOrder.map_behind {leaves : List (List Step × String)} (h : InOrder leaves)
    (step : Step) : InOrder (leaves.map (behind step)) :=
  List.Pairwise.map _ (fun _ _ hlm => .deeper step hlm) h

theorem inOrder_itemLeaves {items : List Json} (h : ∀ j ∈ items, InOrder (leaves j))
    (place : Nat) : InOrder (itemLeaves place items) := by
  induction items generalizing place with
  | nil => exact .nil
  | cons j rest ih =>
    rw [List.forall_mem_cons] at h
    refine List.pairwise_append.mpr ⟨h.1.map_behind _, ih h.2 _, ?_⟩
    intro l hl m hm
    obtain ⟨l, -, rfl⟩ := List.mem_map.mp hl
    obtain ⟨index, i, -, hmem⟩ := mem_itemLeaves_iff.mp hm
    obtain ⟨m, -, rfl⟩ := List.mem_map.mp hmem
    exact .item (by omega) _ _

theorem inOrder_memberLeaves {members : List (String × Json)}
    (hsorted : (members.map (·.1)).Pairwise (· < ·)) (h : ∀ m ∈ members, InOrder (leaves m.2)) :
    InOrder (memberLeaves members) := by
  induction members with
  | nil => exact .nil
  | cons x rest ih =>
    rw [List.forall_mem_cons] at h
    rw [List.map_cons, List.pairwise_cons] at hsorted
    refine List.pairwise_append.mpr ⟨h.1.map_behind _, ih hsorted.2 h.2, ?_⟩
    intro l hl m hm
    obtain ⟨l, -, rfl⟩ := List.mem_map.mp hl
    obtain ⟨y, hy, hmem⟩ := mem_memberLeaves_iff.mp hm
    obtain ⟨m, -, rfl⟩ := List.mem_map.mp hmem
    exact .member (hsorted.1 _ (List.mem_map_of_mem hy)) _ _

theorem Ordered.inOrder_leaves {j : Json} (h : Ordered j) : InOrder (leaves j) := by
  induction h with
  | null => exact .nil
  | unreadable => exact .nil
  | bool b => exact List.pairwise_singleton _ _
  | number n => exact List.pairwise_singleton _ _
  | text s => exact List.pairwise_singleton _ _
  | array _ ih => exact inOrder_itemLeaves ih 1
  | object hsorted _ ih => exact inOrder_memberLeaves hsorted ih

theorem ordered_settled (j : Json) : Ordered j.settled := by
  induction j using Json.induction_parts with
  | null => exact .null
  | unreadable => exact .unreadable
  | bool b => exact .bool b
  | number n => exact .number n
  | text s => exact .text s
  | array items ih =>
    rw [settled, settledItems_eq_map]
    exact .array (List.forall_mem_map.mpr ih)
  | object members ih =>
    rw [settled]
    refine .object ?_ (forall_mem_settledMembers ih fun _ h => nomatch h)
    rw [settledMembers_eq_foldl]
    exact sorted_foldl_insertMember _ .nil

/-- Settling leaves a value as it is whose members are in order already. -/
theorem Ordered.settled_eq {j : Json} (h : Ordered j) : j.settled = j := by
  induction h with
  | null => rfl
  | unreadable => rfl
  | bool b => rfl
  | number n => rfl
  | text s => rfl
  | array _ ih =>
    rw [settled, settledItems_eq_map, List.map_congr_left ih, List.map_id']
  | @object members hsorted _ ih =>
    have hmembers : ∀ m ∈ members, (m.1, m.2.settled) = m := fun m hm => by rw [ih m hm]
    rw [settled_object_of_sorted hsorted, List.map_congr_left hmembers, List.map_id']

/-! ## The pairs -/

/-- The keys of a query are different and in their order. -/
theorem sorted_flatten (j : Json) : ((flatten j).map (·.1)).Pairwise (· < ·) :=
  sorted_foldl_insertMember _ .nil

theorem mem_flatten_iff {j : Json} {key value : String} :
    (key, value) ∈ flatten j ↔ Final j.settled key value := by
  have horder : InOrder (leaves j.settled) := (ordered_settled j).inOrder_leaves
  rw [flatten, mem_foldl_insertMember_iff, pairs_eq_map]
  constructor
  · rintro ⟨before, after, hsplit, hlast⟩
    obtain ⟨earlier, rest, hleaves, -, hrest⟩ := List.map_eq_append_iff.mp hsplit
    obtain ⟨leaf, later, rfl, hleaf, rfl⟩ := List.map_eq_cons_iff.mp hrest
    rw [hleaves] at horder
    obtain ⟨-, -, hearlier⟩ := List.pairwise_append.mp horder
    obtain ⟨hkey, hvalue⟩ := Prod.mk.inj hleaf
    have hmem : leaf ∈ leaves j.settled := by
      rw [hleaves]
      exact List.mem_append_right _ List.mem_cons_self
    refine ⟨leaf.1, hvalue ▸ leaf_of_mem_leaves hmem, hkey, ?_⟩
    intro steps' value' h' hkey'
    have hmem' := mem_leaves_iff.mpr h'
    rw [hleaves, List.mem_append, List.mem_cons] at hmem'
    rcases hmem' with hmem' | rfl | hmem'
    · exact .inr (hearlier _ hmem' _ List.mem_cons_self)
    · exact .inl rfl
    · rw [List.map_map] at hlast
      exact (hlast (List.mem_map.mpr ⟨_, hmem', hkey'⟩)).elim
  · rintro ⟨steps, hleaf, hkey, hlast⟩
    obtain ⟨earlier, later, hleaves⟩ := List.append_of_mem (mem_leaves_iff.mpr hleaf)
    rw [hleaves] at horder
    obtain ⟨-, hlater, -⟩ := List.pairwise_append.mp horder
    refine ⟨earlier.map (pairBelow ""), later.map (pairBelow ""), ?_, ?_⟩
    · rw [hleaves, List.map_append, List.map_cons, ← hkey]
      rfl
    · rw [List.map_map]
      intro hmem
      obtain ⟨⟨steps', value'⟩, hmem', hkey'⟩ := List.mem_map.mp hmem
      have hbefore : Before steps steps' := (List.pairwise_cons.mp hlater).1 _ hmem'
      have hleaf' : Leaf j.settled steps' value' := by
        rw [← mem_leaves_iff, hleaves]
        exact List.mem_append_right _ (List.mem_cons_of_mem _ hmem')
      rcases hlast steps' value' hleaf' hkey' with rfl | hback
      · exact Before.irrefl _ hbefore
      · exact hbefore.asymm hback

end WeightedDns.Wire.Query
