import HazardReach.Cutoff.Table
import HazardReach.Rupture
import HazardReach.Site.Collection

/-!
Which sites are within range of a rupture.

A site is in range when its distance is at most the cutoff. A rupture with no site in range is far
away, which is an outcome of its own and not an empty collection.
-/
namespace HazardReach

inductive Proximity (α : Type) where
  | farAway
  | close (sites : SiteCollection α) (distances : List α)

variable {α : Type} [Scalar α]

def withinReach (km : α) (distances : List α) : List Bool :=
  distances.map fun d => decide (d ≤ km)

/-- The sites in range of a rupture by its region type and magnitude. An empty table sets no
limit. -/
def CutoffTable.closest [Trig α] (t : CutoffTable α) (sites : SiteCollection α) (r : Rupture α)
    (metric : Metric) : Except (Error α) (Proximity α) := do
  let distances ← r.distances sites.mesh metric
  if t.isEmpty then return .close sites distances
  let km ← t.get r.regionType (some r.magnitude)
  let mask := withinReach km distances
  if !mask.any id then return .farAway
  match ← (sites.keep mask).mapError .badSites with
  | some close => return .close close (masked distances mask)
  | none => return .farAway

/-- The sites at most `km` from the projection of the rupture, if there are any. -/
def Rupture.sitesWithin (r : Rupture α) (km : α) (sites : SiteCollection α) :
    Except SitesFault (Option (SiteCollection α)) :=
  if sites.isEmpty then .ok none
  else sites.keep (withinReach km (r.surface.rjb sites.mesh))

end HazardReach
