import HazardReach.Cutoff.Table
import HazardReach.Screen.Frame
import HazardReach.Site.Index
import HazardReach.Source.Basic

/-!
Screens: what pairs seismic sources with the sites close enough to matter.

A screen without sites passes every source through with the sites it is given. A screen with an
index asks it for the box of the source, grown by the cutoff of its region type. A screen with an
empty table pairs every source with all sites. Any other screen lets the source select its sites by
its own geometry. Sources without a site in range are left out.
-/
namespace HazardReach

inductive IndexKind where
  | tree
  | scan
  /-- Sources search by their own geometry. -/
  | none
  deriving DecidableEq, Repr

namespace IndexKind

def all : List IndexKind := [tree, scan, none]

instance : Inhabited IndexKind := ⟨tree⟩

def name : IndexKind → String
  | tree => "auto"
  | scan => "flat"
  | none => "disabled"

end IndexKind

structure Screen (α : Type) where
  sites : Option (SiteCollection α)
  cutoffs : CutoffTable α
  index : Option (SiteIndex α)
  frame : Frame

structure AffectedSites (α : Type) where
  source : Source α
  sites : SiteCollection α
  /-- Number of the sites, which tells what the source will cost. -/
  siteCount : Nat

/-- A box by its south-west corner and its extents in degrees. -/
structure Rectangle (α : Type) where
  origin : α × α
  width : α
  height : α
  deriving Repr

namespace Screen

variable {α : Type} [Scalar α]

def indexEntries (sites : SiteCollection α) : List (IndexEntry α) × Frame :=
  let (lons, moved) := Longitude.joined sites.lons
  (List.zipWith (fun (s : Site α) lon => ⟨s.id, lon, s.lat⟩) sites.toList lons,
    if moved then .positive else .signed)

/-- Only sites at sea level are indexed. -/
def buildIndex (sites : SiteCollection α) (kind : IndexKind) : Option (SiteIndex α) × Frame :=
  if !sites.atSeaLevel then (none, .signed)
  else
    let (entries, frame) := indexEntries sites
    match kind with
    | .tree => (some (.tree entries), frame)
    | .scan => (some (.scan entries), frame)
    | .none => (none, .signed)

/-- An index is built for sites and a table that is not empty. -/
def build (sites : Option (SiteCollection α)) (cutoffs : CutoffTable α) (kind : IndexKind) :
    Screen α :=
  let (index, frame) :=
    match sites with
    | some sites => if cutoffs.isEmpty then (none, .signed) else buildIndex sites kind
    | none => (none, .signed)
  { sites, cutoffs, index, frame }

def passThrough : Screen α := build none .empty .none

/-- What the screen becomes on its way to another process: its sites and its table. -/
def transmitted (screen : Screen α) : Screen α := build screen.sites screen.cutoffs .none

def usesIndex (screen : Screen α) : Bool := screen.index.isSome

/-- Longitudes were moved away from the date line. -/
def movedLongitudes (screen : Screen α) : Bool := screen.frame == .positive

/-- The box of a source at the cutoff of its region type, in the frame of the index. -/
def affectedBox (screen : Screen α) (source : Source α) : Except (Error α) (Box α) := do
  let km ← screen.cutoffs.get source.regionType none
  return screen.frame.place (← source.box km)

def rectangle (screen : Screen α) (source : Source α) : Except (Error α) (Rectangle α) := do
  let b ← screen.affectedBox source
  return ⟨(b.west, b.south), b.east - b.west, b.north - b.south⟩

def queryIndex (screen : Screen α) (index : SiteIndex α) (source : Source α)
    (sites : SiteCollection α) : Except (Error α) (Option (SiteCollection α)) := do
  let rects := screen.frame.split (← screen.affectedBox source)
  let found := (rects.flatMap index.within).filter sites.contains
  (sites.select (ascending (·.val.toNat) found)).mapError .badSites

/-- The sites that a screen with sites of its own finds for a source. -/
def search (screen : Screen α) (source : Source α) (sites : SiteCollection α) :
    Except (Error α) (Option (SiteCollection α)) :=
  match screen.index with
  | some index => screen.queryIndex index source sites
  | none =>
    if screen.cutoffs.isEmpty then .ok (some sites)
    else do source.sitesWithin (← screen.cutoffs.get source.regionType none) sites

/-- The source with its sites, or nothing when no site is in range. Errors are tagged with the
source. -/
def affected (screen : Screen α) (source : Source α) (sites : SiteCollection α) :
    Except (Error α) (Option (AffectedSites α)) :=
  if screen.sites.isNone then .ok (some ⟨source, sites, sites.size⟩)
  else match screen.search source sites with
    | .error e => .error (e.inSource source.id)
    | .ok found => .ok (found.map fun sites => ⟨source, sites, sites.size⟩)

end Screen

end HazardReach
