import WeightedDns.Json.Basic
import WeightedDns.Text.Blank

/-!
# Resource IDs

A weighted set is tracked by the IDs of its records in the order of its entries, written one after
the other with commas between. `ResourceId.parse?` takes blanks off every part; `ResourceId.new?`
takes the IDs as they are.
-/

namespace WeightedDns

/-- The IDs of the records of a set, in the order of its entries. -/
structure ResourceId where
  ids : List String
  deriving DecidableEq, Repr

namespace ResourceId

/-- The parts of a text between the places where a separator stands; one more than separators. -/
def splitAt (separator : Char) : List Char → List (List Char)
  | [] => [[]]
  | c :: cs =>
    if c = separator then [] :: splitAt separator cs
    else
      match splitAt separator cs with
      | [] => [[c]]
      | part :: parts => (c :: part) :: parts

/-- Texts one after the other with commas between. -/
def join (ids : List String) : String := String.intercalate "," ids

/-- Whether a text can be the ID of a record: it is not blank and holds no comma. -/
def isRecordId (id : String) : Bool :=
  !Text.isBlank id && !id.toList.contains ','

/-- The resource ID of a list of record IDs, none if the list is empty or one of them is none. -/
def new? (ids : List String) : Option ResourceId :=
  if !ids.isEmpty && ids.all isRecordId then some ⟨ids⟩ else none

/-- The written form. -/
def text (r : ResourceId) : String := join r.ids

/-- Read a written form: blanks around the parts are left out, and no part may be blank. -/
def parse? (s : String) : Option ResourceId :=
  let ids := (splitAt ',' s.toList).map fun part => String.ofList (Text.trimChars part)
  if ids.any (· == "") then none else some ⟨ids⟩

/-- The number of records. -/
def size (r : ResourceId) : Nat := r.ids.length

/-- A resource ID as JSON. -/
def toJson (r : ResourceId) : Json := .text r.text

/-- Read a resource ID from JSON. -/
def ofJson? : Json → Option ResourceId
  | .text s => parse? s
  | _ => none

end ResourceId

/-- A record to be taken over: its zone and its ID. -/
structure ImportId where
  domain : String
  recordId : String
  deriving DecidableEq, Repr

namespace ImportId

/-- The written form. -/
def text (i : ImportId) : String := s!"{i.domain}/{i.recordId}"

/-- Read a written form: two parts with a slash between, neither of them empty. -/
def parse? (s : String) : Option ImportId :=
  match ResourceId.splitAt '/' s.toList with
  | [domain, recordId] =>
    if domain.isEmpty || recordId.isEmpty then none
    else some ⟨String.ofList domain, String.ofList recordId⟩
  | _ => none

end ImportId

end WeightedDns
