import HazardReach.Sphere.GreatCircle

/-!
Boxes of longitude and latitude.

A box runs eastwards from its west edge to its east edge. One that wraps across the date line has
its west edge at the larger longitude.
-/
namespace HazardReach

structure Box (α : Type) where
  west : α
  south : α
  east : α
  north : α
  deriving Repr

namespace Box

variable {α : Type} [Scalar α]

def ofLocation (lon lat : α) : Box α := ⟨lon, lat, lon, lat⟩

def wraps (b : Box α) : Bool := decide (b.east < b.west)

def width (b : Box α) : α := if b.wraps then b.east + 360 - b.west else b.east - b.west

def height (b : Box α) : α := b.north - b.south

/-- Edges included. A wrapped box holds both sides of the date line. -/
def contains (b : Box α) (lon lat : α) : Bool :=
  decide (b.south ≤ lat) && decide (lat ≤ b.north) &&
    if b.wraps then decide (b.west ≤ lon) || decide (lon ≤ b.east)
    else decide (b.west ≤ lon) && decide (lon ≤ b.east)

/-- The box grown by `km` on every side: latitudes up to the poles, longitudes by the width of `km`
at the latitude nearest to a pole. A box that would reach round the globe gets all longitudes. -/
def enlarged [Trig α] (b : Box α) (km : α) : Box α :=
  let dlat := min (km * Sphere.degreesPerKm) 90
  let dlon := min (Sphere.longitudeWidth km b.south (some b.north)) 180
  let south := max (b.south - dlat) (-90)
  let north := min (b.north + dlat) 90
  if 360 ≤ Scalar.abs (Longitude.extent b.west b.east) + 2 * dlon then ⟨-180, south, 180, north⟩
  else
    let west := b.west - dlon
    let east := b.east + dlon
    { west := if west < -180 then west + 360 else west
      south
      east := if 180 < east then east - 360 else east
      north }

def display [NumberText α] (b : Box α) : String :=
  "(" ++ ", ".intercalate ([b.west, b.south, b.east, b.north].map NumberText.text) ++ ")"

end Box

end HazardReach
