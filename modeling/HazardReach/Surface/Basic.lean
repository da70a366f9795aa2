import HazardReach.Sphere.Enclosure
import HazardReach.Sphere.Mesh

/-!
Rupture surfaces, as distances see them.
-/
namespace HazardReach

/-- A surface answers with one distance for each point of a mesh. -/
structure Surface (α : Type) where
  name : String
  strike : α
  box : Except (GeometryFault α) (Box α)
  rrup : Mesh α → Except (Error α) (List α)
  rjb : Mesh α → List α
  /-- Signed distance from the top edge at right angles to strike, positive down dip. -/
  rx : Mesh α → List α
  /-- Distance along strike beyond the ends of the top edge. -/
  ry0 : Mesh α → List α
  /-- Bearing relative to strike in `[0, 360)`. -/
  azimuth : Mesh α → List α
  /-- Directivity for a hypocentre and a slip direction in degrees, zero along strike. -/
  directivity : Point α → α → Mesh α → Except (Error α) (List α) :=
    fun _ _ _ => .error (.geometry (.noDirectivity name))

/-- The surface with the last value of its closest distances lost: fewer distances than points. -/
def Surface.truncated {α : Type} (s : Surface α) : Surface α where
  name := "Truncated"
  strike := s.strike
  box := s.box
  rrup mesh := (s.rrup mesh).map List.dropLast
  rjb mesh := (s.rjb mesh).dropLast
  rx := s.rx
  ry0 := s.ry0
  azimuth := s.azimuth

end HazardReach
