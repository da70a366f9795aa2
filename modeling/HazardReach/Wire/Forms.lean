import HazardReach.Screen.Basic
import HazardReach.Source.MultiPointSource
import HazardReach.Wire.Record

/-!
The wire forms of sites, tables, sources and screens.

A site collection is written as its complete set and the identifiers of the selected sites, and a
screen as its sites and its table. Reading one builds it anew: collections get a new origin, tables
are checked, and screens come back without an index.
-/
namespace HazardReach.Wire

open Fields

variable {α : Type} [Scalar α] [NumberText α]

def pointCodec : Codec α (Point α) :=
  (Codec.record (required "lon" .number <| required "lat" .number <|
    required "depth" .number .nil)).refine
    (fun p => (p.lon, p.lat, p.depth, ()))
    (fun (lon, lat, depth, _) => .ok ⟨lon, lat, depth⟩)

/-- The lists are taken as they are, whatever their lengths. -/
def meshCodec : Codec α (Mesh α) :=
  (Codec.record (required "lons" (.list .number) <| required "lats" (.list .number) <|
    required "depths" (.list .number) .nil)).refine
    (fun m => (m.lons, m.lats, m.depths, ()))
    (fun (lons, lats, depths, _) => .ok ⟨lons, lats, depths⟩)

def boxCodec : Codec α (Box α) :=
  (Codec.record (required "min_lon" .number <| required "min_lat" .number <|
    required "max_lon" .number <| required "max_lat" .number .nil)).refine
    (fun b => (b.west, b.south, b.east, b.north, ()))
    (fun (west, south, east, north, _) => .ok ⟨west, south, east, north⟩)

def rectangleCodec : Codec α (Rectangle α) :=
  (Codec.record (required "origin" (.pair .number .number) <| required "width" .number <|
    required "height" .number .nil)).refine
    (fun r => (r.origin, r.width, r.height, ()))
    (fun (origin, width, height, _) => .ok ⟨origin, width, height⟩)

def siteCodec : Codec α (Site α) :=
  (Codec.record (required "sid" .id <| required "lon" .number <| required "lat" .number <|
    withDefault "depth" .number 0 .nil)).refine
    (fun s => (s.id, s.lon, s.lat, s.depth, ()))
    (fun (id, lon, lat, depth, _) => .ok ⟨id, lon, lat, depth⟩)

/-! ### Site collections -/

structure SitesForm (α : Type) where
  sites : List (Site α)
  selection : Option (List SiteId)

def SitesForm.ofCollection (c : SiteCollection α) : SitesForm α where
  sites := c.whole.sites.toList
  selection := c.selection.map fun _ => c.ids

/-- An empty selection stands for no collection and is refused. -/
def SitesForm.toCollection (origin : Nat) (form : SitesForm α) :
    Except (WireFault α) (SiteCollection α) := do
  let complete ← (SiteCollection.ofSites origin form.sites).mapError .badSites
  match form.selection with
  | none => return complete
  | some ids =>
    match ← (complete.select ids).mapError .badSites with
    | some c => return c
    | none => throw .emptySelection

def sitesFormCodec : Codec α (SitesForm α) :=
  (Codec.record (required "sites" (.list siteCodec) <|
    .cons "selection" (.optional (.list .id)) (fun _ => some none) (·.isNone) .nil)).refine
    (fun form => (form.sites, form.selection, ()))
    (fun (sites, selection, _) => .ok ⟨sites, selection⟩)

def sitesCodec (origin : Nat) : Codec α (SiteCollection α) :=
  sitesFormCodec.refine .ofCollection (SitesForm.toCollection origin)

/-! ### Tables -/

/-- A number, or a list of pairs. Nothing is checked. -/
def cutoffCodec : Codec α (Cutoff α) where
  write
    | .fixed km => NumberText.wire km
    | .byMagnitude pairs => (Codec.list (.pair .number .number)).write pairs
  read := do
    if (← peek?) == some '[' then
      return .byMagnitude (← (Codec.list (.pair .number .number)).read)
    else return .fixed (← number)

/-- Of repeated keys the last one counts. Entries are checked in the order of their keys. -/
def tableOfForm (entries : List (String × Cutoff α)) : Except (WireFault α) (CutoffTable α) :=
  let last : Std.TreeMap String (Cutoff α) := entries.foldl (fun t p => t.insert p.1 p.2) ∅
  (CutoffTable.ofEntries last.toList).mapError .badEntry

def tableCodec : Codec α (CutoffTable α) :=
  (Codec.dictionary cutoffCodec).refine CutoffTable.toList tableOfForm

/-! ### Sources -/

def pointSourceCodec : Codec α (PointSource α) :=
  (Codec.record (required "source_id" .string <| required "tectonic_region_type" .string <|
    required "location" pointCodec <| withDefault "magnitudes" (.list .number) [] <|
    withDefault "strike" .number 0 <| withDefault "rake" .number 0 <|
    withDefault "max_rupture_radius" .number 0 .nil)).refine
    (fun s => (s.id, s.regionType, s.location, s.magnitudes, s.strike, s.rake,
      s.maxRuptureRadius, ()))
    (fun (id, regionType, location, magnitudes, strike, rake, maxRuptureRadius, _) =>
      .ok { id, regionType, location, magnitudes, strike, rake, maxRuptureRadius })

def multiPointSourceCodec : Codec α (MultiPointSource α) :=
  (Codec.record (required "source_id" .string <| required "tectonic_region_type" .string <|
    required "locations" (.list pointCodec) <| withDefault "magnitudes" (.list .number) [] <|
    withDefault "strike" .number 0 <| withDefault "rake" .number 0 <|
    withDefault "max_rupture_radius" .number 0 .nil)).refine
    (fun s => (s.id, s.regionType, s.locations, s.magnitudes, s.strike, s.rake,
      s.maxRuptureRadius, ()))
    (fun (id, regionType, locations, magnitudes, strike, rake, maxRuptureRadius, _) =>
      .ok { id, regionType, locations, magnitudes, strike, rake, maxRuptureRadius })

def metricCodec : Codec α Metric := .choice Metric.all Metric.name

def indexKindCodec : Codec α IndexKind := .choice IndexKind.all IndexKind.name

/-! ### Screens -/

/-- Sites may be missing from an object, but not from an array. -/
def screenCodec (origin : Nat) : Codec α (Screen α) :=
  (Codec.record
    (.cons "sitecol" (.optional (sitesCodec origin))
        (fun form => if form = .object then some none else none) (fun _ => false) <|
      required "integration_distance" tableCodec .nil)).refine
    (fun screen => (screen.sites, screen.cutoffs, ()))
    (fun (sites, cutoffs, _) => .ok (.build sites cutoffs .none))

end HazardReach.Wire
