import WeightedDns.Remote.Dialogue
import WeightedDns.Text.Letters

/-!
# Walking listings

A listing is walked in pages of a hundred items, from the first page on. A walk ends at a page
that is empty or has no successor, and after five hundred pages at the latest, whatever the
service claims about the length of the listing.
-/

namespace WeightedDns.Remote

/-- The number of items on a page of a walk. -/
def walkPageSize : UInt32 := 100

/-- How many pages a walk asks for at most. -/
def walkLimit : Nat := 500

/-- The first page of a walk. -/
def firstPage : PageRequest := ⟨1, walkPageSize⟩

/-- The records on the listed pages from one page on, on at most `pages` of them. -/
def recordsFrom (domain : String) (query : RecordQuery) (pages : Nat) (request : PageRequest) :
    Dialogue ServiceError (List StoredRecord) :=
  match pages with
  | 0 => pure []
  | pages + 1 => do
    let page ← Dialogue.call (.listRecords domain query request)
    if !page.hasMore || page.items.isEmpty then pure page.items
    else
      let rest ← recordsFrom domain query pages request.next
      pure (page.items ++ rest)

/-- All records of a zone that a query selects. -/
def allRecords (domain : String) (query : RecordQuery) :
    Dialogue ServiceError (List StoredRecord) :=
  recordsFrom domain query walkLimit firstPage

/-- The first weighted host with a name on the listed pages from one page on, on at most `pages`
of them. -/
def weightedHostFrom (domain host name : String) (pages : Nat) (request : PageRequest) :
    Dialogue ServiceError (Option WeightedHost) :=
  match pages with
  | 0 => pure none
  | pages + 1 => do
    let page ← Dialogue.call (.listWeightedHosts domain (some host) request)
    match page.items.find? fun h => Text.sameLetters h.name name with
    | some found => pure (some found)
    | none =>
      if !page.hasMore || page.items.isEmpty then pure none
      else weightedHostFrom domain host name pages request.next

/-- The weighting of the host with a full name, none if it is not listed. -/
def weightedHost? (domain host name : String) : Dialogue ServiceError (Option WeightedHost) :=
  weightedHostFrom domain host name walkLimit firstPage

end WeightedDns.Remote
