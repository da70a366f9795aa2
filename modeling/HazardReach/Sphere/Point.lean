import HazardReach.Sphere.GreatCircle

/-!
Points on or below the surface of the earth. Depths are in kilometres below sea level.
-/
namespace HazardReach

structure Point (α : Type) where
  lon : α
  lat : α
  depth : α
  deriving Repr

namespace Point

variable {α : Type} [Scalar α] [Trig α]

def atSurface (lon lat : α) : Point α := ⟨lon, lat, 0⟩

def epicentral (p q : Point α) : α := Sphere.distance p.lon p.lat q.lon q.lat

/-- The epicentral distance and the difference in depth, taken at right angles. -/
def hypocentral (p q : Point α) : α := Trig.hypot (p.epicentral q) (p.depth - q.depth)

def bearing (p q : Point α) : α := Sphere.bearing p.lon p.lat q.lon q.lat

end Point

end HazardReach
