import WeightedDns.Proofs.Text.Bytes
import WeightedDns.Text.Excerpt

/-!
# Excerpts keep as much as fits

The leading characters that an excerpt keeps are the longest beginning of the text within the
limit (`isLongestWithin_leadingBytes`). A character has at most four bytes, so of a longer text no
more than three bytes below the limit are given away (`excerpt_exact`).
-/

namespace WeightedDns

namespace Digest

theorem length_utf8 (s : String) : (utf8 s).length = s.utf8ByteSize := by
  rw [← List.size_toByteArray, toByteArray_utf8, String.size_toByteArray]

/-- The bytes of a text begin with those of its leading characters. -/
theorem utf8_eq_take {p s : String} (h : p.toList <+: s.toList) :
    utf8 p = (utf8 s).take p.utf8ByteSize := by
  obtain ⟨rest, hrest⟩ := h
  have hbytes : utf8 s = utf8 p ++ rest.flatMap String.utf8EncodeChar := by
    rw [utf8, ← hrest, List.flatMap_append, utf8]
  rw [hbytes, ← length_utf8, List.take_left]

end Digest

namespace Text

/-- The number of bytes of UTF-8 that characters take. -/
def byteCount : List Char → Nat
  | [] => 0
  | c :: cs => c.utf8Size + byteCount cs

theorem length_flatMap_utf8EncodeChar (cs : List Char) :
    (cs.flatMap String.utf8EncodeChar).length = byteCount cs := by
  induction cs with
  | nil => rfl
  | cons c cs ih =>
    rw [List.flatMap_cons, List.length_append, ih, String.length_utf8EncodeChar, byteCount]

theorem byteCount_toList (s : String) : byteCount s.toList = s.utf8ByteSize := by
  rw [← length_flatMap_utf8EncodeChar, ← Digest.length_utf8, Digest.utf8]

theorem utf8ByteSize_ofList (cs : List Char) : (String.ofList cs).utf8ByteSize = byteCount cs := by
  rw [← byteCount_toList, String.toList_ofList]

/-! ## Leading characters -/

theorem leadingBytes_isPrefix (budget : Nat) (cs : List Char) : leadingBytes budget cs <+: cs := by
  induction cs generalizing budget with
  | nil => exact List.prefix_rfl
  | cons c cs ih =>
    unfold leadingBytes
    split
    · exact List.cons_prefix_cons.mpr ⟨rfl, ih _⟩
    · exact List.nil_prefix

theorem byteCount_leadingBytes_le (budget : Nat) (cs : List Char) :
    byteCount (leadingBytes budget cs) ≤ budget := by
  induction cs generalizing budget with
  | nil => exact Nat.zero_le _
  | cons c cs ih =>
    unfold leadingBytes
    split
    · rename_i hfits
      have htail := ih (budget - c.utf8Size)
      rw [byteCount]
      omega
    · exact Nat.zero_le _

/-- Leading characters that fit are among those that are kept. -/
theorem isPrefix_leadingBytes {budget : Nat} {qs cs : List Char} (hstart : qs <+: cs)
    (hfits : byteCount qs ≤ budget) : qs <+: leadingBytes budget cs := by
  induction cs generalizing budget qs with
  | nil => exact hstart
  | cons c cs ih =>
    cases qs with
    | nil => exact List.nil_prefix
    | cons q qs =>
      obtain ⟨rfl, htail⟩ := List.cons_prefix_cons.mp hstart
      rw [byteCount] at hfits
      rw [leadingBytes, if_pos (Nat.le_of_add_right_le hfits)]
      exact List.cons_prefix_cons.mpr ⟨rfl, ih htail (Nat.le_sub_of_add_le' hfits)⟩

/-- What is kept of characters that do not fit comes within three bytes of the budget. -/
theorem le_byteCount_leadingBytes {budget : Nat} {cs : List Char} (h : budget < byteCount cs) :
    budget ≤ byteCount (leadingBytes budget cs) + 3 := by
  induction cs generalizing budget with
  | nil => exact absurd h (Nat.not_lt_zero budget)
  | cons c cs ih =>
    rw [byteCount] at h
    unfold leadingBytes
    split
    · have hrest : budget - c.utf8Size < byteCount cs := by omega
      have htail := ih hrest
      rw [byteCount]
      omega
    · -- the character that does not fit has at most four bytes
      have hsize := c.utf8Size_le_four
      rw [byteCount]
      omega

/-- A text is the longest beginning of another one that has at most so many bytes. -/
structure IsLongestWithin (limit : Nat) (s p : String) : Prop where
  begins : p.toList <+: s.toList
  size_le : p.utf8ByteSize ≤ limit
  longest : ∀ q : String, q.toList <+: s.toList → q.utf8ByteSize ≤ limit → q.toList <+: p.toList

theorem isLongestWithin_leadingBytes (limit : Nat) (s : String) :
    IsLongestWithin limit s (String.ofList (leadingBytes limit s.toList)) where
  begins := by
    rw [String.toList_ofList]
    exact leadingBytes_isPrefix limit s.toList
  size_le := by
    rw [utf8ByteSize_ofList]
    exact byteCount_leadingBytes_le limit s.toList
  longest := by
    intro q hstart hsize
    rw [String.toList_ofList]
    rw [← byteCount_toList] at hsize
    exact isPrefix_leadingBytes hstart hsize

/-! ## Excerpts -/

/-- A text of at most 256 bytes is its own excerpt. The excerpt of a longer one is its longest
beginning of at most 256 bytes and a note of its length; the beginning has at least 253 bytes and
ends between two characters. -/
theorem excerpt_exact (s : String) :
    (s.utf8ByteSize ≤ 256 → excerpt s = s) ∧
    (256 < s.utf8ByteSize →
      ∃ p, excerpt s = p ++ "... [truncated, total " ++ toString s.utf8ByteSize ++ " bytes]" ∧
        IsLongestWithin 256 s p ∧ 253 ≤ p.utf8ByteSize ∧
        Digest.utf8 p = (Digest.utf8 s).take p.utf8ByteSize) := by
  constructor
  · intro hshort
    exact if_pos hshort
  · intro hlong
    have hlongest := isLongestWithin_leadingBytes 256 s
    refine ⟨_, ?_, hlongest, ?_, Digest.utf8_eq_take hlongest.begins⟩
    · unfold excerpt excerptLimit
      rw [if_neg (Nat.not_le.mpr hlong)]
      dsimp only [toString]
      rw [String.append_assoc, String.append_assoc, String.append_assoc]
    · rw [← byteCount_toList] at hlong
      rw [utf8ByteSize_ofList]
      have hkept := le_byteCount_leadingBytes hlong
      omega

/-- A text of characters that have three bytes each. -/
def ideographs (n : Nat) : String := String.ofList (List.replicate n '权')

theorem utf8ByteSize_ideographs (n : Nat) : (ideographs n).utf8ByteSize = n * 3 := by
  rw [ideographs, utf8ByteSize_ofList]
  induction n with
  | zero => rfl
  | succ n ih =>
    have hsize : Char.utf8Size '权' = 3 := rfl
    rw [List.replicate_succ, byteCount, ih, hsize, Nat.succ_mul, Nat.add_comm]

theorem eq_ideographs {p : String} {n : Nat} (h : p.toList <+: (ideographs n).toList) :
    p = ideographs p.length := by
  rw [ideographs, String.toList_ofList] at h
  rw [ideographs, ← String.length_toList, ← (List.prefix_replicate_iff.mp h).2,
    String.ofList_toList]

/-- Of two hundred characters of three bytes 85 are kept: another one would end two bytes behind
the limit. -/
theorem excerpt_ideographs :
    256 < (ideographs 200).utf8ByteSize ∧
      excerpt (ideographs 200) = ideographs 85 ++ "... [truncated, total 600 bytes]" := by
  have hsize : (ideographs 200).utf8ByteSize = 600 := utf8ByteSize_ideographs 200
  have hlong : 256 < (ideographs 200).utf8ByteSize := by
    rw [hsize]
    decide
  refine ⟨hlong, ?_⟩
  obtain ⟨p, hexcerpt, hlongest, hleast, -⟩ := (excerpt_exact (ideographs 200)).2 hlong
  have hp := eq_ideographs hlongest.begins
  have hlength : p.length = 85 := by
    have hmost := hlongest.size_le
    have hcount := utf8ByteSize_ideographs p.length
    rw [← hp] at hcount
    omega
  rw [hlength] at hp
  rw [hexcerpt, hp, hsize, String.append_assoc, String.append_assoc]
  rfl

end Text

end WeightedDns
