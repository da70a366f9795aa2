import HazardReach.Surface.Basic

/-!
Ruptures and the distances measured from them.
-/
namespace HazardReach

structure Rupture (α : Type) where
  magnitude : α
  rake : α
  regionType : String
  hypocenter : Point α
  surface : Surface α
  /-- Slip direction in the fault plane, needed for directivity only. -/
  slip : Option α

/-- The distance measures of ground motion models. -/
inductive Metric where
  /-- Closest distance to the surface. -/
  | rrup
  /-- Closest distance to the projection of the surface. -/
  | rjb
  | rx
  | ry0
  | rhypo
  | repi
  | rcdpp
  | azimuth
  deriving DecidableEq, Repr

namespace Metric

def all : List Metric := [rrup, rjb, rx, ry0, rhypo, repi, rcdpp, azimuth]

instance : Inhabited Metric := ⟨rrup⟩

def name : Metric → String
  | rrup => "rrup"
  | rjb => "rjb"
  | rx => "rx"
  | ry0 => "ry0"
  | rhypo => "rhypo"
  | repi => "repi"
  | rcdpp => "rcdpp"
  | azimuth => "azimuth"

def find? (name : String) : Option Metric := all.find? (·.name == name)

def ofName {α : Type} (name : String) : Except (Error α) Metric :=
  match find? name with
  | some metric => .ok metric
  | none => .error (.unknownMetric name)

end Metric

namespace Rupture

variable {α : Type} [Scalar α] [Trig α]

def directivity (r : Rupture α) (mesh : Mesh α) : Except (Error α) (List α) :=
  match r.slip with
  | some slip => r.surface.directivity r.hypocenter slip mesh
  | none => .error (.geometry .noSlip)

def distances (r : Rupture α) (mesh : Mesh α) : Metric → Except (Error α) (List α)
  | .rrup => r.surface.rrup mesh
  | .rjb => .ok (r.surface.rjb mesh)
  | .rx => .ok (r.surface.rx mesh)
  | .ry0 => .ok (r.surface.ry0 mesh)
  | .rhypo => .ok (r.hypocenter.hypocentrals mesh)
  | .repi => .ok (r.hypocenter.epicentrals mesh)
  | .rcdpp => r.directivity mesh
  | .azimuth => .ok (r.surface.azimuth mesh)

def distancesByName (r : Rupture α) (mesh : Mesh α) (metric : String) :
    Except (Error α) (List α) := do
  r.distances mesh (← Metric.ofName metric)

end Rupture

end HazardReach
