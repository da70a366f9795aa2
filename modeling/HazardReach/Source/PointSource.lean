import HazardReach.Rupture
import HazardReach.Source.Basic
import HazardReach.Surface.Point

/-!
Earthquakes that start at one point.
-/
namespace HazardReach

structure PointSource (α : Type) where
  id : String
  regionType : String
  location : Point α
  magnitudes : List α
  strike : α
  rake : α
  /-- How far a rupture reaches from the location, in kilometres. Widens every distance test. -/
  maxRuptureRadius : α

namespace PointSource

variable {α : Type} [Scalar α] [Trig α]

def ruptures (s : PointSource α) : List (Rupture α) :=
  s.magnitudes.map fun magnitude =>
    { magnitude
      rake := s.rake
      regionType := s.regionType
      hypocenter := s.location
      surface := PointSurface.toSurface ⟨s.location, s.strike⟩
      slip := none }

def toSource (s : PointSource α) : Source α where
  id := s.id
  regionType := s.regionType
  box km := do
    Source.checkReach km
    return (Box.ofLocation s.location.lon s.location.lat).enlarged (km + s.maxRuptureRadius)
  sitesWithin km sites := do
    Source.checkReach km
    if sites.isEmpty then return none
    let limit := km + s.maxRuptureRadius
    (sites.keep ((s.location.epicentrals sites.mesh).map fun d => decide (d ≤ limit))).mapError
      .badSites

end PointSource

end HazardReach
