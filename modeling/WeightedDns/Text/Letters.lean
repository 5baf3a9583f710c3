/-!
# Letter case and parts of texts

Names of hosts, domains and record types are compared without regard to the case of the letters
`a` to `z`. Letters outside that range have one form here. Keywords select the texts that have
them as a part.
-/

namespace WeightedDns.Text

/-- A text with `a` to `z` raised to `A` to `Z`. -/
def raise (s : String) : String :=
  String.ofList (s.toList.map Char.toUpper)

/-- A text with `A` to `Z` lowered to `a` to `z`. -/
def lower (s : String) : String :=
  String.ofList (s.toList.map Char.toLower)

/-- Whether two texts agree when the case of the letters `a` to `z` is ignored. -/
def sameLetters (a b : String) : Bool :=
  lower a == lower b

/-- Whether characters stand one after the other somewhere among others. -/
def hasPart (part : List Char) : List Char → Bool
  | [] => part.isEmpty
  | c :: cs => part.isPrefixOf (c :: cs) || hasPart part cs

/-- Whether a text has another one as a part. -/
def holds (s part : String) : Bool := hasPart part.toList s.toList

@[simp] theorem sameLetters_refl (a : String) : sameLetters a a := by
  simp [sameLetters]

theorem sameLetters_comm (a b : String) : sameLetters a b = sameLetters b a :=
  Bool.beq_comm

/-- A text is a part exactly of the texts that have something before and something behind it. -/
theorem hasPart_iff {part cs : List Char} : hasPart part cs = true ↔ part <:+: cs := by
  induction cs with
  | nil => simp [hasPart]
  | cons c cs ih => simp [hasPart, ih, List.infix_cons_iff]

theorem holds_iff {s part : String} : holds s part = true ↔ part.toList <:+: s.toList :=
  hasPart_iff

end WeightedDns.Text
