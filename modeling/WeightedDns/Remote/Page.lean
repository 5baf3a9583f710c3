import WeightedDns.Json.Record

/-!
# Pages of listings

Listings are delivered in pages, counted from one. A page knows how many items there are in all,
and from that whether another page follows.
-/

namespace WeightedDns

/-- Which page of a listing to deliver. -/
structure PageRequest where
  page : UInt32
  size : UInt32
  deriving DecidableEq, Repr

namespace PageRequest

/-- The first page of twenty items. -/
def standard : PageRequest := ⟨1, 20⟩

/-- The request with the page number at least one and the size from one to a bound. -/
def clamped (r : PageRequest) (maxSize : UInt32) : PageRequest :=
  ⟨max r.page 1, min (max r.size 1) maxSize⟩

/-- The request for the page that follows. -/
def next (r : PageRequest) : PageRequest := { r with page := r.page + 1 }

/-- A page request as JSON. -/
def toJson (r : PageRequest) : Json :=
  .object [("page", .ofUInt32 r.page), ("pageSize", .ofUInt32 r.size)]

/-- Read a page request. -/
def ofJson? (j : Json) : Option PageRequest := do
  let m ← j.members? ["page", "pageSize"] false
  some {
    page := ← m.required "page" Json.asUInt32?
    size := ← m.required "pageSize" Json.asUInt32? }

end PageRequest

/-- A page of a listing. -/
structure Page (α : Type) where
  items : List α
  page : UInt32
  size : UInt32
  /-- The number of items on all pages. -/
  total : UInt32
  /-- Whether a page follows. -/
  hasMore : Bool
  deriving DecidableEq, Repr

namespace Page

/-- The number of items on the pages up to the given one, as far as 32 bits can hold it. -/
def covered (page size : UInt32) : Nat := min (page.toNat * size.toNat) (UInt32.size - 1)

/-- The page with the given items; another one follows while not all items are covered. -/
def ofItems (items : List α) (request : PageRequest) (total : UInt32) : Page α :=
  ⟨items, request.page, request.size, total, covered request.page request.size < total.toNat⟩

/-- A page as JSON. -/
def toJson (write : α → Json) (p : Page α) : Json :=
  .object [("items", .ofList write p.items), ("page", .ofUInt32 p.page),
    ("pageSize", .ofUInt32 p.size), ("totalCount", .ofUInt32 p.total),
    ("hasMore", .bool p.hasMore)]

/-- Read a page. -/
def ofJson? (read : Json → Option α) (j : Json) : Option (Page α) := do
  let m ← j.members? ["items", "page", "pageSize", "totalCount", "hasMore"] false
  some {
    items := ← m.required "items" (Json.asList? read)
    page := ← m.required "page" Json.asUInt32?
    size := ← m.required "pageSize" Json.asUInt32?
    total := ← m.required "totalCount" Json.asUInt32?
    hasMore := ← m.required "hasMore" Json.asBool? }

end Page

end WeightedDns
