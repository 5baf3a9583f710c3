/-!
# Excerpts for messages and logs

Bodies of replies enter error messages only as excerpts: at most 256 bytes of UTF-8, cut between
two characters, with a note of the full length. Access key IDs enter logs only masked.
-/

namespace WeightedDns.Text

/-- The longest run of leading characters whose UTF-8 form fits into `budget` bytes. -/
def leadingBytes (budget : Nat) : List Char → List Char
  | [] => []
  | c :: cs =>
    if c.utf8Size ≤ budget then c :: leadingBytes (budget - c.utf8Size) cs else []

/-- The number of bytes of UTF-8 that an excerpt keeps at most. -/
def excerptLimit : Nat := 256

/-- A text of at most 256 bytes as it is; of a longer one its leading characters that fit, and a
note of its length. -/
def excerpt (s : String) : String :=
  if s.utf8ByteSize ≤ excerptLimit then s
  else
    String.ofList (leadingBytes excerptLimit s.toList) ++
      s!"... [truncated, total {s.utf8ByteSize} bytes]"

/-- A key of more than eight characters with all but the first and last four replaced by four
stars; a shorter key as stars only. -/
def maskKey (s : String) : String :=
  let cs := s.toList
  if cs.length ≤ 8 then String.ofList (List.replicate cs.length '*')
  else String.ofList (cs.take 4) ++ "****" ++ String.ofList (cs.drop (cs.length - 4))

end WeightedDns.Text
