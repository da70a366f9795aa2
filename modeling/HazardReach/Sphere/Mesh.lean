import HazardReach.Error

/-!
Meshes: coordinates of many points as parallel lists.

A mesh read from the wire may have lists of different lengths; its points end with the shortest.
-/
namespace HazardReach

structure Mesh (α : Type) where
  lons : List α
  lats : List α
  depths : List α
  deriving Repr

namespace Mesh

variable {α : Type}

def ofLists (lons lats depths : List α) : Except (GeometryFault α) (Mesh α) :=
  if lons.length = lats.length ∧ lons.length = depths.length then .ok ⟨lons, lats, depths⟩
  else .error (.meshLengths lons.length lats.length depths.length)

def ofPoints (points : List (Point α)) : Mesh α :=
  ⟨points.map (·.lon), points.map (·.lat), points.map (·.depth)⟩

def size (m : Mesh α) : Nat := m.lons.length

def isEmpty (m : Mesh α) : Bool := m.lons.isEmpty

def points (m : Mesh α) : List (Point α) :=
  ((m.lons.zip m.lats).zip m.depths).map fun ((lon, lat), depth) => ⟨lon, lat, depth⟩

def get? (m : Mesh α) (i : Nat) : Option (Point α) := do
  return ⟨← m.lons[i]?, ← m.lats[i]?, ← m.depths[i]?⟩

end Mesh

namespace Point

variable {α : Type} [Scalar α] [Trig α]

def epicentrals (p : Point α) (m : Mesh α) : List α := m.points.map p.epicentral

def hypocentrals (p : Point α) (m : Mesh α) : List α := m.points.map p.hypocentral

end Point

end HazardReach
