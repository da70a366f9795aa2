import HazardReach.Sphere.Longitude

/-!
Great circles on a spherical earth: distances in kilometres, bearings and coordinates in degrees.
-/
namespace HazardReach.Sphere

variable {α : Type} [Scalar α] [Trig α]

open Trig

def earthRadius : α := 6371

/-- Degrees of arc in a kilometre along a great circle, as used to widen boxes. -/
def degreesPerKm : α := 89932 / 10000000

def kmPerDegree : α := earthRadius * pi / 180

def square (x : α) : α := x * x

/-- The haversine formula. The sine of half the angle is kept from exceeding one. -/
def distance (lon₁ lat₁ lon₂ lat₂ : α) : α :=
  let dlat := (toRadians lat₁ - toRadians lat₂) / 2
  let dlon := (toRadians lon₁ - toRadians lon₂) / 2
  let a := square (sin dlat) + cos (toRadians lat₁) * cos (toRadians lat₂) * square (sin dlon)
  2 * earthRadius * asin (min (sqrt a) 1)

/-- Initial bearing from the first point to the second, clockwise from north in `[0, 360)`. -/
def bearing (lon₁ lat₁ lon₂ lat₂ : α) : α :=
  let dlon := toRadians (lon₂ - lon₁)
  let lat₁ := toRadians lat₁
  let lat₂ := toRadians lat₂
  let y := sin dlon * cos lat₂
  let x := cos lat₁ * sin lat₂ - sin lat₁ * cos lat₂ * cos dlon
  Scalar.emod (toDegrees (atan2 y x)) 360

def destination (lon lat bearing km : α) : α × α :=
  let lon := toRadians lon
  let lat := toRadians lat
  let bearing := toRadians bearing
  let delta := km / earthRadius
  let lat₂ := asin (sin lat * cos delta + cos lat * sin delta * cos bearing)
  let dlon := atan2 (sin bearing * sin delta * cos lat) (cos delta - sin lat * sin lat₂)
  (Longitude.wrap (toDegrees (lon + dlon)), toDegrees lat₂)

/-- Degrees of longitude in `km` at the latitude nearer to a pole; unbounded towards the poles. -/
def longitudeWidth (km lat : α) (other : Option α) : α :=
  let lat := match other with
    | some other => max (Scalar.abs lat) (Scalar.abs other)
    | none => Scalar.abs lat
  km * degreesPerKm / cos (toRadians lat)

end HazardReach.Sphere
