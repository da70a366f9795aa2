import HazardReach.Sphere.Box
import HazardReach.Error

/-!
The smallest box around a set of points, across the date line where the points lie on both sides of
it. Sets that do not fit in half a turn are refused.
-/
namespace HazardReach.Box

variable {α : Type} [Scalar α]

/-- Whether every longitude lies between the edges, each within half a turn of both. -/
def spans (west east : α) (lons : List α) : Bool :=
  lons.all fun lon =>
    decide ((0 : α) ≤ Longitude.extent west lon) && decide ((0 : α) ≤ Longitude.extent lon east)

/-- The edges that enclose longitudes on both sides of the date line. -/
def edgesAcross? (lons : List α) : Option (α × α) := do
  let west ← (← Scalar.bounds? (lons.filter fun lon => decide ((0 : α) < lon))).1
  let east ← (← Scalar.bounds? (lons.filter fun lon => decide (lon < (0 : α)))).2
  if spans west east lons then some (west, east) else none

def enclosing (lons lats : List α) : Except (GeometryFault α) (Box α) :=
  if lons.length ≠ lats.length then .error (.coordinateCounts lons.length lats.length)
  else match Scalar.bounds? lons, Scalar.bounds? lats with
    | some (west, east), some (south, north) =>
      if lons.any fun lon => !(decide (-180 ≤ lon) && decide (lon ≤ 180)) then
        .error (.longitudeRange west east)
      else if Longitude.extent west east < 0 then
        match edgesAcross? lons with
        | some (west, east) => .ok ⟨west, south, east, north⟩
        | none => .error .tooWide
      else .ok ⟨west, south, east, north⟩
    | _, _ => .error .noPoints

end HazardReach.Box
