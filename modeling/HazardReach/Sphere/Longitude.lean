import HazardReach.Scalar

/-!
Arithmetic of longitudes in degrees.

Longitudes are cyclic with period 360. They are kept in `[-180, 180]`, and moved into `[0, 360)`
where a set of them lies on both sides of the date line.
-/
namespace HazardReach.Longitude

variable {α : Type} [Scalar α]

/-- The same meridian in `[-180, 180)`. -/
def wrap (lon : α) : α := Scalar.emod (lon + 180) 360 - 180

/-- The same meridian in `[0, 360)`. -/
def positive (lon : α) : α := Scalar.emod lon 360

/-- Signed extent from one meridian to another the short way round, positive eastwards, in
`(-180, 180]`. -/
def extent (origin lon : α) : α :=
  let e := Scalar.emod (lon - origin + 180) 360 - 180
  if e == -180 then 180 else e

/-- The longitudes have both signs and span more than half a turn. -/
def crossDateLine (lons : List α) : Bool :=
  match Scalar.bounds? lons with
  | none => false
  | some (low, high) => decide (low * high < 0) && decide (180 < Scalar.abs (high - low))

/-- The longitudes with the date line out of their way, and whether they had to be moved. -/
def joined (lons : List α) : List α × Bool :=
  if crossDateLine lons then (lons.map positive, true) else (lons, false)

end HazardReach.Longitude
