import Mathlib.Data.String.Basic
import Mathlib.Tactic.SplitIfs
import WeightedDns.Digest.Sha256

/-!
# Texts as bytes

A text is determined by its UTF-8 form (`utf8_injective`), and texts that are in order by their
characters are in order by their bytes (`utf8_lt_utf8`): a greater character begins with a greater
byte, or agrees in it and so on.
-/

namespace WeightedDns.Digest

theorem toByteArray_utf8 (s : String) : (utf8 s).toByteArray = s.toByteArray := by
  rw [← String.ofList_toList (s := s), String.toByteArray_ofList, utf8, String.toList_ofList]
  rfl

theorem utf8_injective : Function.Injective utf8 := by
  intro a b h
  rw [← String.toByteArray_inj, ← toByteArray_utf8, ← toByteArray_utf8, h]

/-! ## Order -/

theorem toNat_single {n : Nat} (h : n ≤ 127) : (UInt8.ofNat n).toNat = n := by
  rw [UInt8.toNat_ofNat']
  omega

theorem toNat_leading_two (n : Nat) : (UInt8.ofNat (n % 32 + 192)).toNat = n % 32 + 192 := by
  rw [UInt8.toNat_ofNat']
  omega

theorem toNat_leading_three (n : Nat) : (UInt8.ofNat (n % 16 + 224)).toNat = n % 16 + 224 := by
  rw [UInt8.toNat_ofNat']
  omega

theorem toNat_leading_four (n : Nat) : (UInt8.ofNat (n % 8 + 240)).toNat = n % 8 + 240 := by
  rw [UInt8.toNat_ofNat']
  omega

theorem toNat_following (n : Nat) : (UInt8.ofNat (n % 64 + 128)).toNat = n % 64 + 128 := by
  rw [UInt8.toNat_ofNat']
  omega

/-- A greater character has a greater UTF-8 form, whatever stands behind. -/
theorem utf8EncodeChar_append_lt {c d : Char} (h : c < d) (xs ys : List UInt8) :
    String.utf8EncodeChar c ++ xs < String.utf8EncodeChar d ++ ys := by
  have hlt : c.val.toNat < d.val.toNat := h
  have hvalid : d.val.toNat < 0x110000 := by
    have hd := d.valid
    simp only [UInt32.isValidChar, Nat.isValidChar] at hd
    omega
  have htwice : ∀ n, n / 4096 = n / 64 / 64 := by omega
  have hthrice : ∀ n, n / 262144 = n / 64 / 64 / 64 := by omega
  unfold String.utf8EncodeChar
  dsimp only
  generalize c.val.toNat = m at *
  generalize d.val.toNat = n at *
  -- one case for each pair of lengths; bytes are compared digit by digit to the base 64
  split_ifs
  all_goals
    simp (disch := assumption) only [htwice, hthrice, List.cons_append, List.nil_append,
      List.cons_lt_cons_iff, UInt8.lt_iff_toNat_lt, ← UInt8.toNat_inj, toNat_single,
      toNat_leading_two, toNat_leading_three, toNat_leading_four, toNat_following]
    omega

theorem utf8EncodeChar_ne_nil (c : Char) : String.utf8EncodeChar c ≠ [] := by
  unfold String.utf8EncodeChar
  dsimp only
  split_ifs <;> exact List.cons_ne_nil _ _

theorem flatMap_utf8EncodeChar_lt {cs ds : List Char} (h : cs < ds) :
    cs.flatMap String.utf8EncodeChar < ds.flatMap String.utf8EncodeChar := by
  induction cs generalizing ds with
  | nil =>
    cases ds with
    | nil => exact absurd h (List.not_lt_nil _)
    | cons d ds =>
      obtain ⟨b, bs, hb⟩ := List.exists_cons_of_ne_nil (utf8EncodeChar_ne_nil d)
      rw [List.flatMap_cons, hb]
      exact List.nil_lt_cons _ _
  | cons c cs ih =>
    cases ds with
    | nil => exact absurd h (List.not_lt_nil _)
    | cons d ds =>
      rw [List.flatMap_cons, List.flatMap_cons]
      obtain hcd | ⟨rfl, hrest⟩ := List.cons_lt_cons_iff.mp h
      · exact utf8EncodeChar_append_lt hcd _ _
      · exact List.append_left_lt (ih hrest)

theorem utf8_lt_utf8 {a b : String} (h : a < b) : utf8 a < utf8 b :=
  flatMap_utf8EncodeChar_lt (String.lt_iff_toList_lt.mp h)

end WeightedDns.Digest
