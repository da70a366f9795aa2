import HazardReach.Site.Collection
import HazardReach.Sphere.Enclosure

/-!
Seismic sources, as screens see them.
-/
namespace HazardReach

structure Source (α : Type) where
  id : String
  regionType : String
  /-- The box around the source, grown by a distance in kilometres. -/
  box : α → Except (Error α) (Box α)
  /-- The sites within a distance of the source, if there are any. -/
  sitesWithin : α → SiteCollection α → Except (Error α) (Option (SiteCollection α))

namespace Source

variable {α : Type} [Scalar α]

def checkReach (km : α) : Except (Error α) Unit :=
  if Scalar.isExtent km then .ok () else .error (.geometry (.badReach km))

/-- A source that is a box, whatever the distance. -/
def ofBox (id regionType : String) (b : Box α) : Source α where
  id
  regionType
  box _ := .ok b
  sitesWithin _ sites :=
    if sites.isEmpty then .ok none
    else (sites.keep (sites.toList.map fun s => b.contains s.lon s.lat)).mapError .badSites

end Source

end HazardReach
