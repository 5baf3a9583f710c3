import WeightedDns.Proofs.Text.Bytes
import WeightedDns.Text.Percent

/-!
# Percent encoding read back

Decoding is the inverse of encoding (`decode?_encode`). Encoded text is `Written` with unreserved
characters and triplets of a percent sign and two upper-case digits, so that any other character
can stand between encoded texts as a mark (`not_mem_encode`).
-/

namespace WeightedDns.Text.Percent

/-! ## Decoding -/

theorem hexValue?_hexDigit : ∀ n < 16, hexValue? (hexDigit n) = some n := by decide

theorem decodeBytes?_encodeByte (b : UInt8) (cs : List Char) :
    decodeBytes? (encodeByte b ++ cs) = (decodeBytes? cs).map (b :: ·) := by
  have hbyte : b.toNat < 256 := b.toNat_lt_size
  have hvalue : UInt8.ofNat (16 * (b.toNat / 16) + b.toNat % 16) = b := by
    rw [Nat.div_add_mod, UInt8.ofNat_toNat]
  have hhi := hexValue?_hexDigit (b.toNat / 16) (by omega)
  have hlo := hexValue?_hexDigit (b.toNat % 16) (by omega)
  simp only [encodeByte, List.cons_append, List.nil_append, decodeBytes?, hhi, hlo,
    Option.bind_eq_bind, Option.bind_some, hvalue]
  cases decodeBytes? cs <;> rfl

theorem decodeBytes?_flatMap_encodeByte (bs : List UInt8) (cs : List Char) :
    decodeBytes? (bs.flatMap encodeByte ++ cs) = (decodeBytes? cs).map (bs ++ ·) := by
  induction bs with
  | nil => simp
  | cons b bs ih =>
    rw [List.flatMap_cons, List.append_assoc, decodeBytes?_encodeByte, ih, Option.map_map]
    rfl

theorem decodeBytes?_of_isUnreserved {c : Char} (h : isUnreserved c = true) (cs : List Char) :
    decodeBytes? (c :: cs) = (decodeBytes? cs).map (UInt8.ofNat c.toNat :: ·) := by
  have hpercent : c ≠ '%' := by
    rintro rfl
    revert h
    decide
  rw [decodeBytes?.eq_def]
  split
  next heq => cases heq
  next heq => exact (hpercent (List.cons.inj heq).1).elim
  next heq =>
    obtain ⟨rfl, rfl⟩ := List.cons.inj heq
    rw [if_pos h]

theorem val_le_of_isAlphanum {c : Char} (h : c.isAlphanum = true) : c.val.toNat ≤ 127 := by
  have hupper : c.isUpper = true → c.val ≤ 'Z'.val := fun h => (of_decide_eq_true h).2
  have hlower : c.isLower = true → c.val ≤ 'z'.val := fun h =>
    of_decide_eq_true (Bool.and_eq_true_iff.mp h).2
  have hdigit : c.isDigit = true → c.val ≤ '9'.val := fun h =>
    of_decide_eq_true (Bool.and_eq_true_iff.mp h).2
  have hkind : ((c.isUpper || c.isLower) || c.isDigit) = true := h
  rw [Bool.or_eq_true, Bool.or_eq_true] at hkind
  rcases hkind with (h | h) | h
  · exact Nat.le_trans (hupper h) (by decide)
  · exact Nat.le_trans (hlower h) (by decide)
  · exact Nat.le_trans (hdigit h) (by decide)

/-- Unreserved characters have one byte. -/
theorem utf8EncodeChar_of_isUnreserved {c : Char} (h : isUnreserved c = true) :
    String.utf8EncodeChar c = [UInt8.ofNat c.toNat] := by
  have hle : c.val.toNat ≤ 127 := by
    simp only [isUnreserved, Bool.or_eq_true, beq_iff_eq] at h
    rcases h with ((((h | rfl) | rfl) | rfl) | rfl)
    · exact val_le_of_isAlphanum h
    all_goals decide
  simp only [String.utf8EncodeChar, hle, if_true]
  rfl

theorem decodeBytes?_encodeChar (c : Char) (cs : List Char) :
    decodeBytes? (encodeChar c ++ cs) = (decodeBytes? cs).map (String.utf8EncodeChar c ++ ·) := by
  rw [encodeChar]
  split
  next h =>
    rw [List.singleton_append, decodeBytes?_of_isUnreserved h, utf8EncodeChar_of_isUnreserved h]
    rfl
  next => exact decodeBytes?_flatMap_encodeByte _ _

theorem decodeBytes?_encode (s : String) :
    decodeBytes? (encode s).toList = some (Digest.utf8 s) := by
  rw [encode, String.toList_ofList, Digest.utf8]
  induction s.toList with
  | nil => rfl
  | cons c cs ih =>
    rw [List.flatMap_cons, decodeBytes?_encodeChar, ih]
    rfl

theorem decode?_encode (s : String) : decode? (encode s) = some s := by
  have hbytes : (⟨(Digest.utf8 s).toArray⟩ : ByteArray) = s.toByteArray := by
    rw [← Digest.toByteArray_utf8, ← List.data_toByteArray]
  have hread : String.fromUTF8? s.toByteArray = some s := by
    rw [String.fromUTF8?, dif_pos s.isValidUTF8]
    rfl
  rw [decode?, decodeBytes?_encode, Option.bind_eq_bind, Option.bind_some, hbytes, hread]

/-! ## Characters of encoded texts -/

/-- The digits of triplets. -/
def upperHexDigits : List Char := "0123456789ABCDEF".toList

/-- Characters that are unreserved, or triplets, or some marks. -/
inductive Written (marks : List Char) : List Char → Prop where
  | nil : Written marks []
  | single {c : Char} {cs : List Char} (h : isUnreserved c = true ∨ c ∈ marks)
      (hrest : Written marks cs) : Written marks (c :: cs)
  | triplet {hi lo : Char} {cs : List Char} (hhi : hi ∈ upperHexDigits)
      (hlo : lo ∈ upperHexDigits) (hrest : Written marks cs) :
      Written marks ('%' :: hi :: lo :: cs)

namespace Written

variable {marks cs ds : List Char}

theorem append (hcs : Written marks cs) (hds : Written marks ds) : Written marks (cs ++ ds) := by
  induction hcs with
  | nil => exact hds
  | single h _ ih => exact .single h ih
  | triplet hhi hlo _ ih => exact .triplet hhi hlo ih

theorem mono {marks' : List Char} (h : marks ⊆ marks') (hcs : Written marks cs) :
    Written marks' cs := by
  induction hcs with
  | nil => exact .nil
  | single hc _ ih => exact .single (hc.imp_right fun hmem => h hmem) ih
  | triplet hhi hlo _ ih => exact .triplet hhi hlo ih

/-- A reserved character stands in a text only as a mark. -/
theorem not_mem {c : Char} (h : Written marks cs) (hreserved : isUnreserved c = false)
    (hpercent : c ≠ '%') (hmark : c ∉ marks) : c ∉ cs := by
  have hdigits : ∀ d ∈ upperHexDigits, isUnreserved d = true :=
    List.all_eq_true.mp (by decide)
  have hne : ∀ d, isUnreserved d = true → c ≠ d := by
    rintro d hd rfl
    rw [hreserved] at hd
    cases hd
  induction h with
  | nil => exact List.not_mem_nil
  | single hd _ ih =>
    rw [List.mem_cons, not_or]
    refine ⟨?_, ih⟩
    rintro rfl
    exact hd.elim (fun hfree => hne c hfree rfl) hmark
  | triplet hhi hlo _ ih =>
    simp only [List.mem_cons, not_or]
    exact ⟨hpercent, hne _ (hdigits _ hhi), hne _ (hdigits _ hlo), ih⟩

end Written

theorem hexDigit_mem : ∀ n < 16, hexDigit n ∈ upperHexDigits := by decide

theorem written_encodeByte (b : UInt8) : Written [] (encodeByte b) := by
  have hbyte : b.toNat < 256 := b.toNat_lt_size
  exact .triplet (hexDigit_mem _ (by omega)) (hexDigit_mem _ (by omega)) .nil

theorem written_flatMap {α : Type} {f : α → List Char} (h : ∀ a, Written [] (f a))
    (items : List α) : Written [] (items.flatMap f) := by
  induction items with
  | nil => exact .nil
  | cons a items ih => exact (h a).append ih

theorem written_encode (s : String) : Written [] (encode s).toList := by
  rw [encode, String.toList_ofList]
  refine written_flatMap (fun c => ?_) _
  rw [encodeChar]
  split
  next h => exact .single (.inl h) .nil
  next => exact written_flatMap written_encodeByte _

theorem not_mem_encode {c : Char} (hreserved : isUnreserved c = false) (hpercent : c ≠ '%')
    (s : String) : c ∉ (encode s).toList :=
  (written_encode s).not_mem hreserved hpercent List.not_mem_nil

end WeightedDns.Text.Percent
