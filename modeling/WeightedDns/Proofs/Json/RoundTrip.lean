import WeightedDns.Json.Printer
import WeightedDns.Json.Reader

/-!
# Printed values read back

The indented text of a plain value is read as that value again (`parse?_pretty`). A value is plain
when all its numbers are whole ones that are kept exactly and no part of it is unreadable.

The reader is followed over the text in the order of the printer: a text in quotes, a number, the
items between brackets, the members between braces. `ReadBack` is what is known of one value; what
stands behind it begins with a comma or a new line, so that a number is never read too far.
-/

namespace WeightedDns.Json

open Decimal Text

/-- A value without floats and without unreadable parts. -/
inductive Plain : Json → Prop where
  | null : Plain .null
  | bool (b : Bool) : Plain (.bool b)
  | whole {n : Int} (hleast : leastWhole ≤ n) (hgreatest : n ≤ greatestWhole) :
      Plain (.number (.whole n))
  | text (s : String) : Plain (.text s)
  | array {items : List Json} (h : ∀ j ∈ items, Plain j) : Plain (.array items)
  | object {members : List (String × Json)} (h : ∀ m ∈ members, Plain m.2) :
      Plain (.object members)

/-! ## White space -/

theorem skipSpace_cons {c : Char} (hc : isSpace c = false) (cs : List Char) :
    skipSpace (c :: cs) = c :: cs :=
  List.dropWhile_cons_of_neg (by simp [hc])

theorem skipSpace_space (cs : List Char) : skipSpace (' ' :: cs) = skipSpace cs :=
  List.dropWhile_cons_of_pos rfl

/-- A new line and its indent are passed over. -/
theorem skipSpace_newline (level : Nat) (cs : List Char) :
    skipSpace ('\n' :: ((indent level).toList ++ cs)) = skipSpace cs := by
  have hindent : ∀ c ∈ (indent level).toList, isSpace c = true := by
    intro c hc
    rw [indent, String.toList_ofList] at hc
    rw [List.eq_of_mem_replicate hc]
    rfl
  rw [skipSpace, List.dropWhile_cons_of_pos rfl, List.dropWhile_append_of_pos hindent, skipSpace]

/-! ## Texts in quotes -/

theorem hexValue?_lowerHexDigit : ∀ n < 16, hexValue? (lowerHexDigit n) = some n := by decide

/-- An escaped character is read in one step. -/
theorem closeText?_escapeChar (c : Char) (steps : Nat) (done cs : List Char) :
    closeText? (steps + 1) (some done) (escapeChar c ++ cs) =
      closeText? steps (some (c :: done)) cs := by
  unfold escapeChar
  split
  all_goals try rfl
  rename_i hquote hbackslash _ _ _ _ _
  split
  · -- a control character has its number in four digits, of which the first two are zeros
    rename_i hcontrol
    have hhigh := hexValue?_lowerHexDigit (c.toNat / 16) (by omega)
    have hlow := hexValue?_lowerHexDigit (c.toNat % 16) (by omega)
    have hzero : hexValue? '0' = some 0 := by decide
    have hvalue : 16 * (c.toNat / 16) + c.toNat % 16 = c.toNat := Nat.div_add_mod _ _
    have hunit : unitEscape? ('0' :: '0' :: lowerHexDigit (c.toNat / 16) ::
        lowerHexDigit (c.toNat % 16) :: cs) = some (some c, cs) := by
      have hsurrogates : isLowSurrogate c.toNat = false ∧ isHighSurrogate c.toNat = false := by
        simp only [isLowSurrogate, isHighSurrogate, Bool.and_eq_false_iff,
          decide_eq_false_iff_not]
        omega
      simp [unitEscape?, hexDigits?, hhigh, hlow, hzero, hvalue, hsurrogates, Char.ofNat_toNat]
    simp only [List.cons_append, List.nil_append, closeText?, hunit]
    rfl
  · rename_i hcontrol
    rw [List.cons_append, List.nil_append, closeText?.eq_def]
    split
    case h_1 heq => cases heq
    case h_2 heq => exact (hquote (List.cons.inj heq).1).elim
    case h_3 heq => exact (hbackslash (List.cons.inj heq).1).elim
    case h_4 heq => exact (hbackslash (List.cons.inj heq).1).elim
    case h_5 heq =>
      obtain ⟨rfl, rfl⟩ := List.cons.inj heq
      have hne : c ≠ '\\' := hbackslash
      simp [hne, hcontrol]

theorem escapeChar_ne_nil (c : Char) : escapeChar c ≠ [] := by
  unfold escapeChar
  split
  all_goals try exact List.cons_ne_nil _ _
  split <;> exact List.cons_ne_nil _ _

/-- Escapes make a text longer, so that its length covers the steps to read it. -/
theorem length_le_flatMap_escapeChar (cs : List Char) :
    cs.length ≤ (cs.flatMap escapeChar).length := by
  induction cs with
  | nil => exact Nat.le_refl _
  | cons c cs ih =>
    have hpos := List.length_pos_iff.mpr (escapeChar_ne_nil c)
    rw [List.flatMap_cons, List.length_append, List.length_cons]
    omega

/-- The characters up to the closing quote are those that were escaped. -/
theorem closeText?_flatMap (cs : List Char) (done rest : List Char) {steps : Nat}
    (hsteps : cs.length ≤ steps) :
    closeText? steps (some done) (cs.flatMap escapeChar ++ '"' :: rest) =
      some (some (String.ofList (done.reverse ++ cs)), rest) := by
  induction cs generalizing done steps with
  | nil => simp [closeText?]
  | cons c cs ih =>
    obtain ⟨steps, rfl⟩ : ∃ n, steps = n + 1 := Nat.exists_eq_add_one.mpr (by
      rw [List.length_cons] at hsteps
      omega)
    rw [List.flatMap_cons, List.append_assoc, closeText?_escapeChar,
      ih (c :: done) (Nat.le_of_succ_le_succ hsteps)]
    simp

theorem toList_quoted (s : String) :
    (quoted s).toList = '"' :: (s.toList.flatMap escapeChar ++ ['"']) := by
  rw [quoted, String.toList_ofList, List.cons_append]

theorem skipSpace_quoted (s : String) (rest : List Char) :
    skipSpace ((quoted s).toList ++ rest) = (quoted s).toList ++ rest := by
  rw [toList_quoted, List.cons_append, skipSpace_cons rfl]

theorem closeText?_quoted (s : String) (rest : List Char) (steps : Nat)
    (hsteps : (quoted s).toList.length ≤ steps) :
    closeText? steps (some []) (s.toList.flatMap escapeChar ++ '"' :: rest) =
      some (some s, rest) := by
  rw [closeText?_flatMap, List.reverse_nil, List.nil_append, String.ofList_toList]
  have hlength := length_le_flatMap_escapeChar s.toList
  rw [toList_quoted, List.length_cons, List.length_append] at hsteps
  omega

/-! ## Whole numbers -/

/-- The characters behind a value in a printed text: nothing, or a comma or a new line first. -/
def Clear (rest : List Char) : Prop := ∀ c ∈ rest.head?, c = ',' ∨ c = '\n'

theorem Clear.nil : Clear [] := fun _ h => nomatch h

theorem Clear.comma (rest : List Char) : Clear (',' :: rest) := fun _ h =>
  .inl (Option.mem_some.mp h).symm

theorem Clear.newline (rest : List Char) : Clear ('\n' :: rest) := fun _ h =>
  .inr (Option.mem_some.mp h).symm

/-- A run of digits ends where the value does. -/
theorem digitRun_append {ds rest : List Char} (hds : ∀ c ∈ ds, c.isDigit = true)
    (hrest : Clear rest) : digitRun (ds ++ rest) = (ds.map (·.toNat - '0'.toNat), rest) := by
  induction ds with
  | nil =>
    cases rest with
    | nil => rfl
    | cons c cs =>
      obtain rfl | rfl := hrest c rfl <;> rfl
  | cons d ds ih =>
    rw [List.forall_mem_cons] at hds
    rw [List.cons_append, digitRun, if_pos hds.1, ih hds.2]
    rfl

/-- The digits of a number. -/
def digits (n : Nat) : List Nat := (Nat.toDigits 10 n).map (·.toNat - '0'.toNat)

theorem digitRun_toDigits (n : Nat) {rest : List Char} (hrest : Clear rest) :
    digitRun (Nat.toDigits 10 n ++ rest) = (digits n, rest) :=
  digitRun_append (fun _ hc => Nat.isDigit_of_mem_toDigits (by decide) (by decide) hc) hrest

theorem digitsValue_digits (n : Nat) : digitsValue (digits n) = n := by
  calc digitsValue (digits n) = Nat.ofDigitChars 10 (Nat.toDigits 10 n) 0 := by
        rw [digitsValue, digits, List.foldl_map, Nat.ofDigitChars_eq_foldl]
        simp only [Nat.mul_comm]
    _ = n := Nat.ofDigitChars_ten_toDigits

/-- The first digit of a number other than zero is none. -/
theorem exists_digits_eq_cons {n : Nat} (h : 0 < n) : ∃ d ds, digits n = d :: ds ∧ 0 < d := by
  -- by induction on the number, which has the leading digit of its tenth
  induction n using Nat.strongRecOn with
  | _ n ih =>
    rw [digits, Nat.toDigits_eq_if (by decide)]
    split
    · rename_i hsmall
      refine ⟨_, [], rfl, ?_⟩
      change 0 < n.digitChar.toNat - 48
      rwa [Nat.toNat_digitChar_sub_48_of_lt_ten hsmall]
    · rename_i hlarge
      obtain ⟨d, ds, hdigits, hd⟩ := ih (n / 10) (by omega) (by omega)
      exact ⟨d, _, by rw [List.map_append, ← digits, hdigits, List.cons_append], hd⟩

/-- A whole number as it is written. -/
def integerLiteral (negative : Bool) (n : Nat) : Literal := ⟨negative, digits n, none, none⟩

/-- The text of a value ends where its number does. -/
theorem fraction_exponent_of_clear {rest : List Char} (hrest : Clear rest) :
    fractionPart? rest = some (none, rest) ∧ exponentPart? rest = some (none, rest) := by
  cases rest with
  | nil => exact ⟨rfl, rfl⟩
  | cons c cs => obtain rfl | rfl := hrest c rfl <;> exact ⟨rfl, rfl⟩

theorem literal?_toDigits (n : Nat) {rest : List Char} (hrest : Clear rest) :
    literal? (Nat.toDigits 10 n ++ rest) = some (integerLiteral false n, rest) ∧
      literal? ('-' :: (Nat.toDigits 10 n ++ rest)) = some (integerLiteral true n, rest) := by
  obtain ⟨hfraction, hexponent⟩ := fraction_exponent_of_clear hrest
  have hleading : ((digits n).isEmpty ||
      ((digits n).length != 1 && (digits n).head? == some 0)) = false := by
    rcases Nat.eq_zero_or_pos n with rfl | hpos
    · rfl
    · obtain ⟨d, ds, hdigits, hd⟩ := exists_digits_eq_cons hpos
      simp [hdigits, Nat.ne_of_gt hd]
  obtain ⟨c, cs, hcs⟩ : ∃ c cs, Nat.toDigits 10 n = c :: cs :=
    List.exists_cons_of_ne_nil Nat.toDigits_ne_nil
  have hminus : c ≠ '-' := by
    rintro rfl
    have hdigit : '-'.isDigit = true :=
      Nat.isDigit_of_mem_toDigits (by decide) (by decide) (hcs ▸ List.mem_cons_self)
    exact absurd hdigit (by decide)
  have hrun := digitRun_toDigits n hrest
  rw [hcs, List.cons_append] at hrun ⊢
  constructor
  · simp [literal?, hminus, hrun, hleading, hfraction, hexponent, integerLiteral]
  · simp [literal?, hrun, hleading, hfraction, hexponent, integerLiteral]

theorem number?_integerLiteral {n : Int} (hleast : leastWhole ≤ n) (hgreatest : n ≤ greatestWhole) :
    (integerLiteral (decide (n < 0)) n.natAbs).number? = some (.whole n) := by
  have hvalue : (if n < 0 then -(n.natAbs : Int) else n.natAbs) = n := by
    split <;> omega
  have hzero : (decide (n < 0) && n.natAbs == 0) = false := by
    simp
    omega
  simp only [integerLiteral, Literal.number?, digitsValue_digits, decide_eq_true_eq, hvalue, hzero]
  simp [hleast, hgreatest]

theorem toList_numberText_whole (n : Int) :
    (numberText (.whole n)).toList =
      if n < 0 then '-' :: Nat.toDigits 10 n.natAbs else Nat.toDigits 10 n.natAbs := by
  rw [numberText, Int.toString_eq_repr, Int.repr_eq_if]
  by_cases h : 0 ≤ n
  · have habs : n.toNat = n.natAbs := by omega
    rw [if_pos h, if_neg (by omega), Nat.toList_repr, habs]
  · have habs : (-n).toNat = n.natAbs := by omega
    rw [if_neg h, if_pos (by omega), String.toList_append, Nat.toList_repr, habs]
    rfl

theorem literal?_numberText (n : Int) {rest : List Char} (hrest : Clear rest) :
    literal? ((numberText (.whole n)).toList ++ rest) =
      some (integerLiteral (decide (n < 0)) n.natAbs, rest) := by
  obtain ⟨hwhole, hnegative⟩ := literal?_toDigits n.natAbs hrest
  rw [toList_numberText_whole]
  by_cases h : n < 0
  · rw [if_pos h, List.cons_append, hnegative, decide_eq_true h]
  · rw [if_neg h, hwhole, decide_eq_false h]

/-- The first character of a whole number starts no other value. -/
theorem exists_numberText_eq_cons (n : Int) : ∃ c cs,
    (numberText (.whole n)).toList = c :: cs ∧ (c = '-' ∨ c.isDigit = true) := by
  obtain ⟨c, cs, hcs⟩ : ∃ c cs, Nat.toDigits 10 n.natAbs = c :: cs :=
    List.exists_cons_of_ne_nil Nat.toDigits_ne_nil
  rw [toList_numberText_whole]
  split
  · exact ⟨'-', _, rfl, .inl rfl⟩
  · exact ⟨c, cs, hcs, .inr (Nat.isDigit_of_mem_toDigits (by decide) (by decide)
      (hcs ▸ List.mem_cons_self))⟩

/-! ## Lines between brackets -/

/-- The text behind the first of several parts: the other parts, each on a line of its own, and
the closing bracket. -/
def ending (level : Nat) (closing : Char) : List String → List Char
  | [] => '\n' :: ((indent level).toList ++ [closing])
  | p :: ps =>
    ',' :: '\n' :: ((indent (level + 1)).toList ++ (p.toList ++ ending level closing ps))

theorem clear_ending (level : Nat) (closing : Char) (parts : List String) (rest : List Char) :
    Clear (ending level closing parts ++ rest) := by
  cases parts with
  | nil => exact .newline _
  | cons p ps => exact .comma _

theorem toList_intercalate_lines (level : Nat) (closing : Char) (p : String) (ps : List String) :
    (String.intercalate ",\n" ((p :: ps).map (indent (level + 1) ++ ·))).toList ++
        '\n' :: ((indent level).toList ++ [closing]) =
      (indent (level + 1)).toList ++ (p.toList ++ ending level closing ps) := by
  induction ps generalizing p with
  | nil => simp [ending]
  | cons q qs ih =>
    rw [List.map_cons, List.map_cons, String.intercalate_cons_cons, ← List.map_cons, ending, ← ih q]
    simp

theorem toList_block (opening closing : Char) (level : Nat) (p : String) (ps : List String) :
    (block (String.singleton opening) (String.singleton closing) level (p :: ps)).toList =
      opening :: '\n' ::
        ((indent (level + 1)).toList ++ (p.toList ++ ending level closing ps)) := by
  rw [← toList_intercalate_lines]
  simp [block]

theorem two_le_length_ending (level : Nat) (closing : Char) (parts : List String) :
    2 ≤ (ending level closing parts).length := by
  cases parts <;> simp [ending]

/-! ## Values -/

/-- The text of a value is read as that value, wherever it stands. -/
def ReadBack (j : Json) : Prop :=
  ∀ level steps rest, Clear rest → (prettyAt level j).toList.length ≤ steps →
    readValue? (steps + 1) ((prettyAt level j).toList ++ rest) = some (j, rest)

/-- No value begins with white space or with the end of an array. -/
theorem opens_of_readValue? {steps : Nat} {cs : List Char} {x : Json × List Char}
    (h : readValue? steps cs = some x) :
    ∃ c rest, cs = c :: rest ∧ isSpace c = false ∧ c ≠ ']' := by
  cases steps with
  | zero => simp [readValue?] at h
  | succ steps =>
    cases cs with
    | nil => cases h
    | cons c rest =>
      refine ⟨c, rest, rfl, ?_, by rintro rfl; cases h⟩
      rw [isSpace, Bool.eq_false_iff]
      simp only [ne_eq, Bool.or_eq_true, beq_iff_eq]
      rintro (((rfl | rfl) | rfl) | rfl) <;> cases h

section

variable {j : Json} (h : ReadBack j)
include h

theorem ReadBack.opens (level : Nat) (rest : List Char) : ∃ c cs,
    (prettyAt level j).toList ++ rest = c :: cs ∧ isSpace c = false ∧ c ≠ ']' := by
  obtain ⟨c, cs, hcs, hopens⟩ := opens_of_readValue? (h level _ [] .nil (Nat.le_refl _))
  rw [List.append_nil] at hcs
  exact ⟨c, cs ++ rest, by rw [hcs, List.cons_append], hopens⟩

theorem ReadBack.skipSpace (level : Nat) (rest : List Char) :
    skipSpace ((prettyAt level j).toList ++ rest) = (prettyAt level j).toList ++ rest := by
  obtain ⟨c, cs, hcs, hspace, -⟩ := h.opens level rest
  rw [hcs, skipSpace_cons hspace]

variable {level steps : Nat} {behind : List Char} (hbehind : Clear behind)
include hbehind

/-- Behind an item the array goes on after a comma or ends. -/
theorem ReadBack.readItems? (hsteps : (prettyAt level j).toList.length < steps)
    (done : List Json) :
    readItems? (steps + 1) ((prettyAt level j).toList ++ behind) done =
      match Json.skipSpace behind with
      | ',' :: rest => Json.readItems? steps (Json.skipSpace rest) (j :: done)
      | ']' :: rest => some ((j :: done).reverse, rest)
      | _ => none := by
  obtain ⟨steps, rfl⟩ : ∃ n, steps = n + 1 := Nat.exists_eq_add_one.mpr (by omega)
  rw [Json.readItems?, h level steps behind hbehind (by omega)]
  rfl

/-- Of a member first the key is read and then the value; behind it the object goes on after a
comma or ends. -/
theorem ReadBack.readMembers? (k : String)
    (hsteps : (quoted k).toList.length + (prettyAt level j).toList.length < steps)
    (done : List (Option String × Json)) :
    readMembers? (steps + 1)
        ((quoted k).toList ++ ':' :: ' ' :: ((prettyAt level j).toList ++ behind)) done =
      match Json.skipSpace behind with
      | ',' :: rest => Json.readMembers? steps (Json.skipSpace rest) ((some k, j) :: done)
      | '\x7d' :: rest => some (((some k, j) :: done).reverse, rest)
      | _ => none := by
  obtain ⟨steps, rfl⟩ : ∃ n, steps = n + 1 := Nat.exists_eq_add_one.mpr (by omega)
  have hvalue := h level steps behind hbehind (by omega)
  have hkey := closeText?_quoted k (':' :: ' ' :: ((prettyAt level j).toList ++ behind))
    (steps + 1) (by omega)
  rw [toList_quoted, List.cons_append, List.append_assoc, List.singleton_append, Json.readMembers?,
    hkey]
  simp only [Option.bind_eq_bind, Option.bind_some, skipSpace_cons (c := ':') rfl]
  rw [skipSpace_space, h.skipSpace, hvalue]
  rfl

end

/-- The items behind the opening bracket are read one after another. -/
theorem readItems?_items (level : Nat) {j : Json} {items : List Json} (hj : ReadBack j)
    (hitems : ∀ i ∈ items, ReadBack i) (steps : Nat)
    (hsteps : (prettyAt (level + 1) j).toList.length +
      (ending level ']' (prettyItems level items)).length ≤ steps)
    (done : List Json) (rest : List Char) :
    readItems? steps ((prettyAt (level + 1) j).toList ++
        (ending level ']' (prettyItems level items) ++ rest)) done =
      some (done.reverse ++ j :: items, rest) := by
  -- by induction on the items behind the first, each of which is read after a comma
  induction items generalizing j steps done with
  | nil =>
    have hending := two_le_length_ending level ']' (prettyItems level [])
    obtain ⟨steps, rfl⟩ : ∃ n, steps = n + 1 := Nat.exists_eq_add_one.mpr (by omega)
    rw [hj.readItems? (clear_ending _ _ _ _) (by omega)]
    simp [prettyItems, ending, skipSpace_newline, skipSpace_cons, isSpace]
  | cons i items ih =>
    rw [List.forall_mem_cons] at hitems
    obtain ⟨hi, hitems⟩ := hitems
    simp only [prettyItems, ending, List.length_cons, List.length_append] at hsteps
    obtain ⟨steps, rfl⟩ : ∃ n, steps = n + 1 := Nat.exists_eq_add_one.mpr (by omega)
    have hrest := ih hi hitems steps (by omega) (j :: done)
    rw [hj.readItems? (clear_ending _ _ _ _) (by omega)]
    simp [prettyItems, ending, skipSpace_newline, skipSpace_cons, isSpace, hi.skipSpace, hrest]

/-- The members behind the opening brace are read one after another. -/
theorem readMembers?_members (level : Nat) (k : String) {j : Json}
    {members : List (String × Json)} (hj : ReadBack j) (hmembers : ∀ m ∈ members, ReadBack m.2)
    (steps : Nat)
    (hsteps : (quoted k).toList.length + (prettyAt (level + 1) j).toList.length +
      (ending level '\x7d' (prettyMembers level members)).length ≤ steps)
    (done : List (Option String × Json)) (rest : List Char) :
    readMembers? steps ((quoted k).toList ++ (':' :: ' ' :: ((prettyAt (level + 1) j).toList ++
        (ending level '\x7d' (prettyMembers level members) ++ rest)))) done =
      some (done.reverse ++ (some k, j) :: members.map (fun m => (some m.1, m.2)), rest) := by
  induction members generalizing k j steps done with
  | nil =>
    have hending := two_le_length_ending level '\x7d' (prettyMembers level [])
    obtain ⟨steps, rfl⟩ : ∃ n, steps = n + 1 := Nat.exists_eq_add_one.mpr (by omega)
    rw [hj.readMembers? (clear_ending _ _ _ _) k (by omega)]
    simp [prettyMembers, ending, skipSpace_newline, skipSpace_cons, isSpace]
  | cons m members ih =>
    obtain ⟨l, i⟩ := m
    rw [List.forall_mem_cons] at hmembers
    obtain ⟨hi : ReadBack i, hmembers⟩ := hmembers
    simp only [prettyMembers, ending, List.length_cons, List.length_append, String.toList_append]
      at hsteps
    obtain ⟨steps, rfl⟩ : ∃ n, steps = n + 1 := Nat.exists_eq_add_one.mpr (by omega)
    have hrest := ih l hi hmembers steps (by omega) ((k, j) :: done)
    rw [hj.readMembers? (clear_ending _ _ _ _) k (by omega)]
    simp [prettyMembers, ending, skipSpace_newline, skipSpace_cons, isSpace, skipSpace_quoted,
      hrest]

theorem readBack_array {items : List Json} (hitems : ∀ i ∈ items, ReadBack i) :
    ReadBack (.array items) := by
  intro level steps rest hrest hsteps
  cases items with
  | nil => simp [prettyAt, prettyItems, block, readValue?, skipSpace_cons, isSpace]
  | cons j items =>
    rw [List.forall_mem_cons] at hitems
    obtain ⟨hj, hitems⟩ := hitems
    have htext : (prettyAt level (.array (j :: items))).toList =
        '[' :: '\n' :: ((indent (level + 1)).toList ++
          ((prettyAt (level + 1) j).toList ++ ending level ']' (prettyItems level items))) :=
      toList_block '[' ']' level _ _
    simp only [htext, List.length_cons, List.length_append] at hsteps
    have hread := readItems?_items level hj hitems steps (by omega) [] rest
    obtain ⟨c, cs, hcs, hspace, hbracket⟩ := hj.opens (level + 1)
      (ending level ']' (prettyItems level items) ++ rest)
    have hskip := hj.skipSpace (level + 1) (ending level ']' (prettyItems level items) ++ rest)
    rw [hcs] at hskip hread
    simp [htext, readValue?, skipSpace_newline, hcs, hskip, hread, hbracket]

theorem ofMembers_map_some (members : List (String × Json)) :
    ofMembers (members.map fun m => (some m.1, m.2)) = .object members := by
  have hmap : (members.map fun m => (some m.1, m.2)).mapM
      (fun m : Option String × Json => m.1.map (·, m.2)) = some members := by
    induction members with
    | nil => rfl
    | cons m members ih => simp [List.mapM_cons, ih]
  rw [ofMembers, hmap]

theorem readBack_object {members : List (String × Json)} (hmembers : ∀ m ∈ members, ReadBack m.2) :
    ReadBack (.object members) := by
  intro level steps rest hrest hsteps
  cases members with
  | nil => simp [prettyAt, prettyMembers, block, readValue?, skipSpace_cons, isSpace]
  | cons m members =>
    obtain ⟨k, j⟩ := m
    rw [List.forall_mem_cons] at hmembers
    obtain ⟨hj : ReadBack j, hmembers⟩ := hmembers
    have htext : (prettyAt level (.object ((k, j) :: members))).toList =
        '\x7b' :: '\n' :: ((indent (level + 1)).toList ++
          ((quoted k ++ ": " ++ prettyAt (level + 1) j).toList ++
            ending level '\x7d' (prettyMembers level members))) :=
      toList_block '\x7b' '\x7d' level _ _
    simp only [htext, String.toList_append, List.length_cons, List.length_append] at hsteps
    have hread := readMembers?_members level k hj hmembers steps (by omega) [] rest
    have hkeys := ofMembers_map_some ((k, j) :: members)
    rw [List.map_cons] at hkeys
    simp only [toList_quoted, List.cons_append, List.append_assoc, List.nil_append] at hread
    simp [htext, readValue?, skipSpace_newline, toList_quoted, skipSpace_cons, isSpace, hread,
      hkeys]

theorem readBack_whole {n : Int} (hleast : leastWhole ≤ n) (hgreatest : n ≤ greatestWhole) :
    ReadBack (.number (.whole n)) := by
  intro level steps rest hrest hsteps
  have hliteral := literal?_numberText n hrest
  have hnumber := number?_integerLiteral hleast hgreatest
  obtain ⟨c, cs, hcs, hfirst⟩ := exists_numberText_eq_cons n
  rw [hcs, List.cons_append] at hliteral
  have hother : c ≠ 'n' ∧ c ≠ 't' ∧ c ≠ 'f' ∧ c ≠ '"' ∧ c ≠ '[' ∧ c ≠ '\x7b' := by
    refine ⟨?_, ?_, ?_, ?_, ?_, ?_⟩ <;> (rintro rfl; revert hfirst; decide)
  change readValue? (steps + 1) ((numberText (.whole n)).toList ++ rest) = _
  rw [hcs, List.cons_append]
  simp [readValue?, hother, hliteral, hnumber]

theorem readBack_null : ReadBack .null := by
  intro level steps rest hrest hsteps
  simp [prettyAt, compact, readValue?, expect?_eq_some_iff]

theorem readBack_bool (b : Bool) : ReadBack (.bool b) := by
  intro level steps rest hrest hsteps
  cases b <;> simp [prettyAt, compact, readValue?, expect?_eq_some_iff]

theorem readBack_text (s : String) : ReadBack (.text s) := by
  intro level steps rest hrest hsteps
  change readValue? (steps + 1) ((quoted s).toList ++ rest) = _
  have hread := closeText?_quoted s rest steps hsteps
  rw [toList_quoted, List.cons_append, List.append_assoc, List.singleton_append, readValue?, hread]
  rfl

/-- Every plain value is read back. -/
theorem Plain.readBack {j : Json} (h : Plain j) : ReadBack j := by
  induction h with
  | null => exact readBack_null
  | bool b => exact readBack_bool b
  | whole hleast hgreatest => exact readBack_whole hleast hgreatest
  | text s => exact readBack_text s
  | array _ ih => exact readBack_array ih
  | object _ ih => exact readBack_object ih

/-- Blanks may stand behind the text, if they are on lines of their own. -/
theorem parse?_pretty_append {j : Json} (h : Plain j) (blanks : String)
    (hblanks : skipSpace blanks.toList = []) (hclear : Clear blanks.toList) :
    parse? (j.pretty ++ blanks) = some j := by
  have hskip := h.readBack.skipSpace 0 blanks.toList
  have hread := h.readBack 0 (2 * ((prettyAt 0 j).toList ++ blanks.toList).length + 1)
    blanks.toList hclear (by rw [List.length_append]; omega)
  rw [parse?, pretty, String.toList_append, hskip]
  simp only [hread, Option.bind_eq_bind, Option.bind_some, hblanks]
  rfl

/-- The indented text of a plain value is read as that value. -/
theorem parse?_pretty {j : Json} (h : Plain j) : parse? j.pretty = some j := by
  simpa using parse?_pretty_append h "" rfl .nil

end WeightedDns.Json
