import WeightedDns.Text.Blank

/-!
# Endpoints

An endpoint is the scheme and authority of the service; a path behind them is dropped. The host
that is signed is the authority of the address that is asked.
-/

namespace WeightedDns.Wire

/-- Where the service is reached. -/
structure Endpoint where
  /-- Scheme and authority without a slash behind. -/
  base : String
  /-- The authority alone. -/
  host : String
  deriving DecidableEq, Repr

namespace Endpoint

/-- The characters before the first place where `mark` stands, and those behind it. -/
def splitAtMark? (mark : List Char) : List Char → Option (List Char × List Char)
  | [] => if mark.isEmpty then some ([], []) else none
  | c :: cs =>
    if mark.isPrefixOf (c :: cs) then some ([], (c :: cs).drop mark.length)
    else (splitAtMark? mark cs).map fun parts => (c :: parts.1, parts.2)

/-- The characters without slashes at the end. -/
def dropSlashes (cs : List Char) : List Char := (cs.reverse.dropWhile (· == '/')).reverse

/-- Read an endpoint; without a scheme it is reached over `https`. -/
def ofText (s : String) : Endpoint :=
  let cs := dropSlashes (Text.trimChars s.toList)
  let (scheme, rest) := (splitAtMark? [':', '/', '/'] cs).getD ("https".toList, cs)
  let host := String.ofList (rest.takeWhile (· != '/'))
  ⟨s!"{String.ofList scheme}://{host}", host⟩

/-- The endpoint that is used unless another one is given. -/
def standard : Endpoint := ofText "https://alidns.cn-hangzhou.aliyuncs.com"

/-- The address of a request with a query. -/
def url (e : Endpoint) (query : String) : String :=
  if query = "" then s!"{e.base}/" else s!"{e.base}/?{query}"

end Endpoint

end WeightedDns.Wire
