import HazardReach.Site.Collection
import HazardReach.Sphere.Box

/-!
Indexes of sites by location.

An index answers a rectangle with the sites inside it, edges included, in an order of its own and
with repetitions if there are any. A scan takes the edges as they are given. A tree takes the
corners as given, so that it sorts the edges of each axis first.
-/
namespace HazardReach

/-- A site at the longitude under which it is indexed. -/
structure IndexEntry (α : Type) where
  id : SiteId
  lon : α
  lat : α

structure SiteIndex (α : Type) where
  size : Nat
  within : Box α → List SiteId

namespace SiteIndex

variable {α : Type}

def isEmpty (index : SiteIndex α) : Bool := index.size == 0

variable [Scalar α]

/-- The entry lies between the edges, without regard to the date line. -/
def inside (rect : Box α) (e : IndexEntry α) : Bool :=
  decide (rect.west ≤ e.lon) && decide (e.lon ≤ rect.east) && decide (rect.south ≤ e.lat) &&
    decide (e.lat ≤ rect.north)

/-- Two edges in order. Of edges that do not compare the second stands for both. -/
def ordered (x y : α) : α × α := (if x < y then x else y, if y < x then x else y)

def envelope (rect : Box α) : Box α :=
  let (west, east) := ordered rect.west rect.east
  let (south, north) := ordered rect.south rect.north
  ⟨west, south, east, north⟩

def scan (entries : List (IndexEntry α)) : SiteIndex α where
  size := entries.length
  within rect := (entries.filter (inside rect)).map (·.id)

def tree (entries : List (IndexEntry α)) : SiteIndex α where
  size := entries.length
  within rect := (entries.filter (inside (envelope rect))).map (·.id)

def scanSummary (size : Nat) : String :=
  "FlatIndex \x7b sites: " ++ toString size ++ ", .. \x7d"

end SiteIndex

end HazardReach
