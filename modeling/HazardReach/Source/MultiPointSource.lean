import HazardReach.Source.PointSource

/-!
Earthquakes that start at any of several points of the same kind.

A site is near the source when it is near one of the points.
-/
namespace HazardReach

structure MultiPointSource (α : Type) where
  id : String
  regionType : String
  locations : List (Point α)
  magnitudes : List α
  strike : α
  rake : α
  maxRuptureRadius : α

namespace MultiPointSource

variable {α : Type}

/-- The point source at each location, with the number of the location in its identifier. -/
def points (s : MultiPointSource α) : List (PointSource α) :=
  s.locations.zipIdx.map fun (location, i) =>
    { id := s.id ++ ":" ++ toString i
      regionType := s.regionType
      location
      magnitudes := s.magnitudes
      strike := s.strike
      rake := s.rake
      maxRuptureRadius := s.maxRuptureRadius }

def checkLocations (s : MultiPointSource α) : Except (Error α) Unit :=
  if s.locations.isEmpty then .error (.geometry .noLocations) else .ok ()

variable [Scalar α] [Trig α]

def ruptures (s : MultiPointSource α) : List (Rupture α) := s.points.flatMap PointSource.ruptures

/-- Marks the points of a mesh that are within `limit` of some location. -/
def nearMask (limit : α) (locations : List (Point α)) (mesh : Mesh α) (mask : List Bool) :
    List Bool :=
  locations.foldl
    (fun mask location =>
      List.zipWith (fun near d => near || decide (d ≤ limit)) mask (location.epicentrals mesh))
    mask

def toSource (s : MultiPointSource α) : Source α where
  id := s.id
  regionType := s.regionType
  box km := do
    Source.checkReach km
    s.checkLocations
    let lons := s.locations.map (·.lon)
    let lats := s.locations.map (·.lat)
    let b ← (Box.enclosing lons lats).mapError .geometry
    return b.enlarged (km + s.maxRuptureRadius)
  sitesWithin km sites := do
    Source.checkReach km
    s.checkLocations
    if sites.isEmpty then return none
    let unmarked := List.replicate sites.size false
    (sites.keep (nearMask (km + s.maxRuptureRadius) s.locations sites.mesh unmarked)).mapError
      .badSites

end MultiPointSource

end HazardReach
