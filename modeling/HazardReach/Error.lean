import HazardReach.Site.Basic

/-!
What can go wrong, as causes.

Each kind of object has its own type of faults, and `Error` gathers them by kind. An error raised
while a source is screened is tagged with the identifier of the source and keeps its kind. The
wording of every fault is given here and nowhere else.
-/
namespace HazardReach

inductive EntryFault (α : Type) where
  | badDistance (km : α)
  | noPairs
  | badPair (magnitude km : α)
  | repeatedMagnitude (magnitude : α)
  | other (message : String)

/-- Faults of a site collection or of a selection from one. -/
inductive SitesFault where
  | notFinite (id : SiteId)
  | repeatedId (id : SiteId)
  | unknownId (id : SiteId)
  | maskLength (mask sites : Nat)
  | tooMany
  /-- A screen without sites of its own was given none. -/
  | noCollection
  | other (message : String)

inductive GeometryFault (α : Type) where
  | coordinateCounts (lons lats : Nat)
  | noPoints
  | longitudeRange (west east : α)
  | tooWide
  | meshLengths (lons lats depths : Nat)
  | badDip (dip : α)
  | badWidth (width : α)
  | noTopEdge
  | badReach (km : α)
  | noLocations
  | noSlip
  | noDirectivity (surface : String)
  | other (message : String)

structure BadEntry (α : Type) where
  region : String
  fault : EntryFault α

inductive WireFault (α : Type) where
  | malformed
  | badEntry (entry : BadEntry α)
  | badSites (fault : SitesFault)
  | emptySelection
  | other (message : String)

inductive Error (α : Type) where
  | unknownMetric (name : String)
  | missingRegion (region : String)
  | badEntry (entry : BadEntry α)
  | badSites (fault : SitesFault)
  | geometry (fault : GeometryFault α)
  | wire (fault : WireFault α)
  /-- A number was to be moved between bounds that are not in order. -/
  | undefinedClamp
  | inSource (id : String) (cause : Error α)

inductive ErrorKind where
  | unknownMetric
  | missingRegion
  | badEntry
  | badSites
  | geometry
  | wire
  | undefinedClamp
  deriving DecidableEq, Repr

namespace Error

variable {α : Type}

/-- A tag does not change the kind. -/
def kind : Error α → ErrorKind
  | unknownMetric _ => .unknownMetric
  | missingRegion _ => .missingRegion
  | badEntry _ => .badEntry
  | badSites _ => .badSites
  | geometry _ => .geometry
  | wire _ => .wire
  | undefinedClamp => .undefinedClamp
  | inSource _ cause => cause.kind

def depth : Error α → Nat
  | inSource _ cause => cause.depth + 1
  | _ => 0

end Error

section Wording

variable {α : Type} [NumberText α]

open NumberText

def EntryFault.message : EntryFault α → String
  | badDistance km => "distance must be finite and non-negative, got " ++ text km
  | noPairs => "empty magnitude/distance list"
  | badPair magnitude km => "bad pair (" ++ text magnitude ++ ", " ++ text km ++ ")"
  | repeatedMagnitude magnitude => "magnitude " ++ text magnitude ++ " listed twice"
  | other message => message

def SitesFault.message : SitesFault → String
  | notFinite id => "site " ++ toString id ++ " has non-finite coordinates"
  | repeatedId id => "duplicate site id " ++ toString id
  | unknownId id => "unknown site id " ++ toString id
  | maskLength mask sites =>
    "mask has " ++ toString mask ++ " entries for " ++ toString sites ++ " sites"
  | tooMany => "more than u32::MAX sites"
  | noCollection => "no site collection to pass through"
  | other message => message

def GeometryFault.message : GeometryFault α → String
  | coordinateCounts lons lats =>
    toString lons ++ " longitudes but " ++ toString lats ++ " latitudes"
  | noPoints => "bounding box of an empty point set"
  | longitudeRange west east =>
    "longitudes must lie in [-180, 180], got [" ++ text west ++ ", " ++ text east ++ "]"
  | tooWide => "points collection has longitudinal extent wider than 180 deg"
  | meshLengths lons lats depths =>
    "mesh arrays differ in length: " ++ toString lons ++ " lons, " ++ toString lats ++ " lats, "
      ++ toString depths ++ " depths"
  | badDip dip => "dip must be in (0, 90], got " ++ text dip
  | badWidth width => "width must be a finite non-negative number, got " ++ text width
  | noTopEdge => "top edge has zero length"
  | badReach km => "maximum distance must be finite and non-negative, got " ++ text km
  | noLocations => "multi-point source has no locations"
  | noSlip => "rcdpp needs a rupture slip direction"
  | noDirectivity surface => surface ++ " does not support directivity predictors"
  | other message => message

def BadEntry.message (entry : BadEntry α) : String :=
  "Invalid integration distance for '" ++ entry.region ++ "': " ++ entry.fault.message

def badSitesMessage (fault : SitesFault) : String :=
  "Invalid site collection: " ++ fault.message

def WireFault.message : WireFault α → String
  | malformed => "malformed text"
  | badEntry entry => entry.message
  | badSites fault => badSitesMessage fault
  | emptySelection => "empty site selection"
  | other message => message

def Error.message : Error α → String
  | unknownMetric name => "Unknown distance measure '" ++ name ++ "'"
  | missingRegion region =>
    "No integration distance for tectonic region type '" ++ region ++ "' and no 'default' entry"
  | badEntry entry => entry.message
  | badSites fault => badSitesMessage fault
  | geometry fault => "Geometry error: " ++ fault.message
  | wire fault => "Serialization error: " ++ fault.message
  | undefinedClamp => "clamp bounds out of order"
  | inSource id cause =>
    "An error occurred with source id=" ++ id ++ ". Error: " ++ cause.message

end Wording

end HazardReach
