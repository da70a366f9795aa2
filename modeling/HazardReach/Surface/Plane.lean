import HazardReach.Surface.Basic

/-!
A rectangular fault plane that hangs from a straight top edge and dips to the right of strike.

Distances are taken in a flat frame with its origin at the first end of the top edge: along strike,
horizontally down dip, and in depth below the edge. Because the axes are at right angles, the
closest point of the rectangle is found by clamping each of its two coordinates on its own.
-/
namespace HazardReach

structure Plane (α : Type) where
  topLeft : Point α
  topRight : Point α
  bottomRight : Point α
  bottomLeft : Point α
  strike : α
  dip : α
  length : α
  width : α
  /-- Unit vector along strike, its parts east and north. -/
  along : α × α
  across : α × α
  cosLat : α

structure PlaneCoords (α : Type) where
  along : α
  across : α
  depth : α

namespace Plane

variable {α : Type} [Scalar α] [Trig α]

open Trig

/-- East and north of an origin in kilometres, in the flat frame of its latitude. -/
def offset (origin : Point α) (cosLat lon lat : α) : α × α :=
  (Longitude.extent origin.lon lon * cosLat * Sphere.kmPerDegree,
    (lat - origin.lat) * Sphere.kmPerDegree)

/-- The plane below a top edge at the depth of its first end. -/
def ofTopEdge (topLeft topRight : Point α) (dip width : α) :
    Except (GeometryFault α) (Plane α) :=
  if !(decide (0 < dip) && decide (dip ≤ 90)) then .error (.badDip dip)
  else if !Scalar.isExtent width then .error (.badWidth width)
  else
    let cosLat := cos (toRadians topLeft.lat)
    let (x, y) := offset topLeft cosLat topRight.lon topRight.lat
    let length := hypot x y
    if length == 0 then .error .noTopEdge
    else
      let along := (x / length, y / length)
      let strike := Scalar.emod (toDegrees (atan2 x y)) 360
      let horizontal := width * cos (toRadians dip)
      let bottom := topLeft.depth + width * sin (toRadians dip)
      let below (p : Point α) : Point α :=
        let (lon, lat) := Sphere.destination p.lon p.lat (strike + 90) horizontal
        ⟨lon, lat, bottom⟩
      .ok {
        topLeft
        topRight := { topRight with depth := topLeft.depth }
        bottomRight := below topRight
        bottomLeft := below topLeft
        strike, dip, length, width, along
        across := (along.2, -along.1)
        cosLat }

def corners (s : Plane α) : List (Point α) := [s.topLeft, s.topRight, s.bottomRight, s.bottomLeft]

def coords (s : Plane α) (p : Point α) : PlaneCoords α :=
  let (x, y) := offset s.topLeft s.cosLat p.lon p.lat
  { along := x * s.along.1 + y * s.along.2
    across := x * s.across.1 + y * s.across.2
    depth := p.depth - s.topLeft.depth }

/-- How far a coordinate lies outside `[0, extent]`. -/
def outside (x extent : α) : α := max (max (-x) (x - extent)) 0

def clamp (x hi : α) : Except (Error α) α :=
  match Scalar.clamp? x 0 hi with
  | some x => .ok x
  | none => .error .undefinedClamp

def closest (s : Plane α) (p : Point α) : Except (Error α) α := do
  let sinDip := sin (toRadians s.dip)
  let cosDip := cos (toRadians s.dip)
  let q := s.coords p
  let a ← clamp q.along s.length
  let b ← clamp (q.across * cosDip + q.depth * sinDip) s.width
  let ex := q.along - a
  let ev := q.across - b * cosDip
  let ez := q.depth - b * sinDip
  return sqrt (ex * ex + ev * ev + ez * ez)

/-- Distance from a point to the projection of the rectangle, whatever the depth of the point. -/
def joynerBoore (s : Plane α) (p : Point α) : α :=
  let q := s.coords p
  hypot (outside q.along s.length) (outside q.across (s.width * cos (toRadians s.dip)))

/-- Fraction of the length between the hypocentre and the point along strike, times the cosine of
the angle between the propagation and the bearing of the point, times the part of the slip that is
along strike. At the epicentre itself it is zero. -/
def directivityAt (s : Plane α) (hypocenter : Point α) (slip : α) (p : Point α) :
    Except (Error α) α := do
  let a ← clamp (s.coords p).along s.length
  let h ← clamp (s.coords hypocenter).along s.length
  let run := a - h
  let heading := if 0 ≤ run then s.strike else s.strike + 180
  let theta := toRadians (hypocenter.bearing p - heading)
  let fraction := Scalar.abs run / s.length
  return if hypocenter.epicentral p == 0 then 0
    else fraction * cos theta * Scalar.abs (cos (toRadians slip))

def topCenter (s : Plane α) : α × α :=
  Sphere.destination s.topLeft.lon s.topLeft.lat s.strike (s.length / 2)

def toSurface (s : Plane α) : Surface α where
  name := "PlanarSurface"
  strike := s.strike
  box := Box.enclosing (s.corners.map (·.lon)) (s.corners.map (·.lat))
  rrup mesh := mesh.points.mapM s.closest
  rjb mesh := mesh.points.map s.joynerBoore
  rx mesh := mesh.points.map fun p => (s.coords p).across
  ry0 mesh := mesh.points.map fun p => outside (s.coords p).along s.length
  azimuth mesh :=
    let (lon, lat) := s.topCenter
    mesh.points.map fun p => Scalar.emod (Sphere.bearing lon lat p.lon p.lat - s.strike) 360
  directivity hypocenter slip mesh := mesh.points.mapM (s.directivityAt hypocenter slip)

end Plane

end HazardReach
