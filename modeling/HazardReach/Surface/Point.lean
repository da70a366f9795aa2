import HazardReach.Surface.Basic

/-!
A rupture collapsed onto its hypocentre, with a strike.
-/
namespace HazardReach

structure PointSurface (α : Type) where
  location : Point α
  strike : α

namespace PointSurface

variable {α : Type} [Scalar α] [Trig α]

/-- Bearing of a point clockwise from strike, in radians. -/
def angle (s : PointSurface α) (p : Point α) : α :=
  Trig.toRadians (s.location.bearing p - s.strike)

def toSurface (s : PointSurface α) : Surface α where
  name := "PointSurface"
  strike := s.strike
  box := .ok (.ofLocation s.location.lon s.location.lat)
  rrup mesh := .ok (s.location.hypocentrals mesh)
  rjb mesh := s.location.epicentrals mesh
  rx mesh := mesh.points.map fun p => s.location.epicentral p * Trig.sin (s.angle p)
  ry0 mesh := mesh.points.map fun p =>
    Scalar.abs (s.location.epicentral p * Trig.cos (s.angle p))
  azimuth mesh := mesh.points.map fun p => Scalar.emod (s.location.bearing p - s.strike) 360
  -- A point has no extent along which a rupture could run.
  directivity _ _ mesh := .ok (List.replicate mesh.size 0)

end PointSurface

end HazardReach
