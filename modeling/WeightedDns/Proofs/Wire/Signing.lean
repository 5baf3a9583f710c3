import WeightedDns.Proofs.Wire.Encoding
import WeightedDns.Wire.Signature

/-!
# Signatures cover requests

The canonical form of a request has one line for each field that is signed (`canonical_eq`), and
no field of a `Signable` request breaks its line. So the canonical form determines the fields, and
two requests that differ in one of them have one signature only if a digest collides at them
(`signature_covers`).
-/

namespace WeightedDns

namespace Digest

/-- Two arguments at which a function does not tell them apart. -/
def Collision {α β : Type} (f : α → β) (x y : α) : Prop := x ≠ y ∧ f x = f y

theorem Collision.of_eq {α β : Type} {f : α → β} {x y : α} (h : f x = f y) :
    x = y ∨ Collision f x y :=
  or_iff_not_imp_left.mpr fun hne => ⟨hne, h⟩

/-! ## Digests as text -/

theorem hexDigit_inj : ∀ m < 16, ∀ n < 16, hexDigit m = hexDigit n → m = n := by decide

theorem hexDigit_ne_lineFeed : ∀ n < 16, hexDigit n ≠ '\n' := by decide

theorem hexText_injective : Function.Injective hexText := by
  intro xs ys h
  rw [hexText, hexText, String.ofList_inj] at h
  induction xs generalizing ys with
  | nil =>
    cases ys with
    | nil => rfl
    | cons y ys => cases h
  | cons x xs ih =>
    cases ys with
    | nil => cases h
    | cons y ys =>
      simp only [List.flatMap_cons, List.cons_append, List.nil_append, List.cons.injEq] at h
      obtain ⟨hhigh, hlow, hrest⟩ := h
      have hx : x.toNat < 256 := x.toNat_lt_size
      have hy : y.toNat < 256 := y.toNat_lt_size
      have hquotient := hexDigit_inj _ (by omega) _ (by omega) hhigh
      have hremainder := hexDigit_inj _ (by omega) _ (by omega) hlow
      rw [UInt8.toNat_inj.mp (by omega : x.toNat = y.toNat), ih hrest]

theorem lineFeed_not_mem_hexText (bytes : List UInt8) : '\n' ∉ (hexText bytes).toList := by
  rw [hexText, String.toList_ofList, List.mem_flatMap]
  rintro ⟨b, -, hb⟩
  have hbyte : b.toNat < 256 := b.toNat_lt_size
  simp only [List.mem_cons, List.not_mem_nil, or_false] at hb
  rcases hb with hb | hb <;> exact hexDigit_ne_lineFeed _ (by omega) hb.symm

end Digest

namespace Wire.Request

/-! ## Lines of the canonical form -/

/-- The line of a signed header. -/
def headerLine (h : String × String) : String := h.1 ++ ":" ++ h.2

theorem headerLine_inj {name value value' : String} :
    headerLine (name, value) = headerLine (name, value') ↔ value = value' :=
  String.append_right_inj _

theorem lineFeed_not_mem_headerLine {h : String × String} (hname : '\n' ∉ h.1.toList)
    (hvalue : '\n' ∉ h.2.toList) : '\n' ∉ (headerLine h).toList := by
  simp [headerLine, hname, hvalue]

/-- The lines of the canonical form; an empty one ends the headers. -/
def lines (r : Request) : List String :=
  ["POST", "/", r.query] ++ r.signedHeaders.map headerLine ++
    ["", r.signedNames, emptyBodyDigest]

/-- Texts that each end a line stand as lines of their own, and an empty line ends them. -/
theorem intercalate_join_cons (ended rest : List String) :
    String.intercalate "\n" (String.join (ended.map (· ++ "\n")) :: rest) =
      String.intercalate "\n" (ended ++ "" :: rest) := by
  induction ended with
  | nil => rfl
  | cons line ended ih =>
    rw [List.map_cons, String.join_cons, String.intercalate_cons_append, ih, List.cons_append,
      String.intercalate_cons_of_ne_nil (by simp)]

theorem canonical_eq (r : Request) : r.canonical = String.intercalate "\n" r.lines := by
  have hheaders : r.canonical = String.intercalate "\n" ("POST" :: "/" :: r.query ::
      String.join ((r.signedHeaders.map headerLine).map (· ++ "\n")) ::
        [r.signedNames, emptyBodyDigest]) := by
    rw [List.map_map]
    rfl
  rw [hheaders, String.intercalate_cons_cons, String.intercalate_cons_cons,
    String.intercalate_cons_cons, intercalate_join_cons]
  simp [lines, String.intercalate_cons_of_ne_nil]

/-- A request that can be signed: its query is the one of some parameters, and no other field has
a line feed. -/
structure Signable (r : Request) : Prop where
  host : '\n' ∉ r.endpoint.host.toList
  action : '\n' ∉ r.action.toList
  query : ∃ parameters : Json, r.query = Query.text parameters
  date : '\n' ∉ r.stamp.date.toList
  nonce : '\n' ∉ r.stamp.nonce.toList

/-- The requests agree in all that is signed. -/
structure SameFields (r r' : Request) : Prop where
  host : r.endpoint.host = r'.endpoint.host
  action : r.action = r'.action
  query : r.query = r'.query
  date : r.stamp.date = r'.stamp.date
  nonce : r.stamp.nonce = r'.stamp.nonce

variable {r r' : Request}

/-- A query has no line feed: it would have been written as a triplet. -/
theorem Signable.lineFeed_not_mem_query (h : r.Signable) : '\n' ∉ r.query.toList := by
  obtain ⟨parameters, hquery⟩ := h.query
  rw [hquery]
  exact (Query.written_text parameters).not_mem (by decide) (by decide) (by decide)

theorem Signable.lineFeed_not_mem_lines (h : r.Signable) :
    ∀ line ∈ r.lines, '\n' ∉ line.toList := by
  have hdigest : '\n' ∉ emptyBodyDigest.toList := Digest.lineFeed_not_mem_hexText _
  have hheaders : ∀ line ∈ r.signedHeaders.map headerLine, '\n' ∉ line.toList := by
    rw [List.forall_mem_map]
    intro header hmem
    apply lineFeed_not_mem_headerLine
    · revert header
      simp [signedHeaders]
    · revert header
      simp [signedHeaders, protocolVersion, hdigest, h.host, h.action, h.date, h.nonce]
  simp only [lines, List.forall_mem_append]
  refine ⟨⟨?_, hheaders⟩, ?_⟩
  · simp [h.lineFeed_not_mem_query]
  · simp [signedNames, signedHeaders, hdigest]

theorem Signable.splitAt_canonical (h : r.Signable) :
    ResourceId.splitAt '\n' r.canonical.toList = r.lines.map String.toList := by
  rw [canonical_eq]
  exact ResourceId.splitAt_intercalate rfl (List.cons_ne_nil _ _) h.lineFeed_not_mem_lines

theorem sameFields_of_lines (h : r.lines = r'.lines) : r.SameFields r' := by
  simp only [lines, signedHeaders, List.map_cons, List.map_nil, List.cons_append, List.nil_append,
    List.cons.injEq, headerLine_inj, true_and] at h
  obtain ⟨hquery, hhost, haction, hdate, hnonce, -⟩ := h
  exact ⟨hhost, haction, hquery, hdate, hnonce⟩

theorem Signable.sameFields (h : r.Signable) (h' : r'.Signable) (heq : r.canonical = r'.canonical) :
    r.SameFields r' := by
  apply sameFields_of_lines
  have hchars : r.lines.map String.toList = r'.lines.map String.toList := by
    rw [← h.splitAt_canonical, heq, h'.splitAt_canonical]
  exact (List.map_injective_iff.mpr fun _ _ => String.toList_inj.mp) hchars

/-- The text whose keyed digest is the signature. -/
def signedText (r : Request) : String :=
  s!"{scheme}\n{Digest.hexText (Digest.sha256 (Digest.utf8 r.canonical))}"

/-- Two canonical forms have one signature only if they are one, or a digest collides at them. -/
theorem canonical_eq_or_collision {secret : String}
    (h : r.signature secret = r'.signature secret) :
    r.canonical = r'.canonical ∨
      Digest.Collision Digest.sha256 (Digest.utf8 r.canonical) (Digest.utf8 r'.canonical) ∨
      Digest.Collision (Digest.hmacSha256 (Digest.utf8 secret)) (Digest.utf8 r.signedText)
        (Digest.utf8 r'.signedText) := by
  have hkeyed : Digest.hmacSha256 (Digest.utf8 secret) (Digest.utf8 r.signedText) =
      Digest.hmacSha256 (Digest.utf8 secret) (Digest.utf8 r'.signedText) :=
    Digest.hexText_injective h
  rcases Digest.Collision.of_eq hkeyed with hbytes | hcollision
  · have htext : r.signedText = r'.signedText := Digest.utf8_injective hbytes
    have hdigest : Digest.sha256 (Digest.utf8 r.canonical) =
        Digest.sha256 (Digest.utf8 r'.canonical) :=
      Digest.hexText_injective ((String.append_right_inj _).mp htext)
    rcases Digest.Collision.of_eq hdigest with hcanonical | hcollision
    · exact .inl (Digest.utf8_injective hcanonical)
    · exact .inr (.inl hcollision)
  · exact .inr (.inr hcollision)

/-- The canonical form determines host, action, query, date and nonce. So under any secret two
requests that differ in one of them have different signatures, unless the digest of their
canonical forms or the keyed digest of the texts that are signed collides. -/
theorem signature_covers (h : r.Signable) (h' : r'.Signable) :
    (r.canonical = r'.canonical → r.SameFields r') ∧
    ∀ secret, r.signature secret = r'.signature secret →
      r.SameFields r' ∨
      Digest.Collision Digest.sha256 (Digest.utf8 r.canonical) (Digest.utf8 r'.canonical) ∨
      Digest.Collision (Digest.hmacSha256 (Digest.utf8 secret)) (Digest.utf8 r.signedText)
        (Digest.utf8 r'.signedText) :=
  ⟨h.sameFields h', fun _ heq => (canonical_eq_or_collision heq).imp_left (h.sameFields h')⟩

/-- A request to delete a record, with a stamp. -/
def deletion (date nonce : String) : Request :=
  ⟨.standard, "DeleteDomainRecord", Query.text (.object [("RecordId", .text "7")]), ⟨date, nonce⟩⟩

theorem signable_deletion {date nonce : String} (hdate : '\n' ∉ date.toList)
    (hnonce : '\n' ∉ nonce.toList) : (deletion date nonce).Signable where
  host := by
    show '\n' ∉ Endpoint.standard.host.toList
    decide +kernel
  action := by
    show '\n' ∉ "DeleteDomainRecord".toList
    decide
  query := ⟨.object [("RecordId", .text "7")], rfl⟩
  date := hdate
  nonce := hnonce

/-- A request whose nonce has two digits. -/
def tenth : Request := deletion "2024-05-01T00:00:00Z" "10"

/-- The first digit stands behind the date. -/
def shifted : Request := deletion "2024-05-01T00:00:00Z1" "0"

theorem shifted_covered :
    tenth.Signable ∧ shifted.Signable ∧ tenth.canonical ≠ shifted.canonical ∧
    ∀ secret, tenth.signature secret = shifted.signature secret →
      Digest.Collision Digest.sha256 (Digest.utf8 tenth.canonical)
        (Digest.utf8 shifted.canonical) ∨
      Digest.Collision (Digest.hmacSha256 (Digest.utf8 secret)) (Digest.utf8 tenth.signedText)
        (Digest.utf8 shifted.signedText) := by
  have htenth : tenth.Signable := signable_deletion (by decide) (by decide)
  have hshifted : shifted.Signable := signable_deletion (by decide) (by decide)
  have hdiffer : ¬ tenth.SameFields shifted := fun hsame => by
    have hnonce : "10" = "0" := hsame.nonce
    revert hnonce
    decide
  obtain ⟨hcanonical, hsignature⟩ := signature_covers htenth hshifted
  exact ⟨htenth, hshifted, mt hcanonical hdiffer,
    fun secret heq => (hsignature secret heq).resolve_left hdiffer⟩

end Wire.Request

end WeightedDns
