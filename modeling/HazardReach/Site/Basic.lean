import HazardReach.Sphere.Point

/-!
Sites: the locations where hazard is computed.
-/
namespace HazardReach

/-- Identifier of a site, stable under filtering. -/
structure SiteId where
  val : UInt32
  deriving DecidableEq, Hashable, Repr

instance : ToString SiteId := ⟨fun id => toString id.val.toNat⟩

structure Site (α : Type) where
  id : SiteId
  lon : α
  lat : α
  /-- Negative for a site above sea level. -/
  depth : α
  deriving Repr

namespace Site

variable {α : Type} [Scalar α]

def atSeaLevel (s : Site α) : Bool := s.depth == 0

def location (s : Site α) : Point α := ⟨s.lon, s.lat, s.depth⟩

def isFinite (s : Site α) : Bool :=
  Scalar.isFinite s.lon && Scalar.isFinite s.lat && Scalar.isFinite s.depth

/-- Agreement in identifier and coordinates, as the numbers themselves compare. -/
def same (s t : Site α) : Bool :=
  s.id == t.id && s.lon == t.lon && s.lat == t.lat && s.depth == t.depth

end Site

end HazardReach
