import HazardReach.Proofs.Lawful
import HazardReach.Proofs.Source.Points
import HazardReach.Proofs.Sphere.Turns
import Mathlib.Data.List.ProdSigma

/-! A source at several points is the union of the sources at each of them. It keeps the sites that
one of these keeps, so that only which locations it has counts, and its ruptures are theirs, one
location after the other. -/
namespace HazardReach

open Scalar

variable {α : Type}

theorem SiteCollection.Part.eq_none_iff {c : SiteCollection α} {p : Site α → Bool}
    {r : Option (SiteCollection α)} (h : c.Part p r) :
    r = none ↔ ∀ s, ¬∃ d ∈ r, s ∈ d.toList := by
  constructor
  · rintro rfl s ⟨d, hd, -⟩
    contradiction
  · intro hnothing
    have htoList := h.toList
    cases r with
    | none => rfl
    | some d =>
      obtain ⟨hne, heq⟩ := present_eq_some_iff.mp htoList.symm
      obtain ⟨s, hs⟩ := List.exists_mem_of_ne_nil _ hne
      rw [heq] at hs
      exact absurd ⟨d, rfl, hs⟩ (hnothing s)

namespace MultiPointSource

variable (s : MultiPointSource α)

theorem map_location_points : s.points.map (·.location) = s.locations := by
  unfold points
  rw [List.map_map]
  exact List.zipIdx_map_fst 0 s.locations

theorem exists_point_iff {P : Point α → Prop} :
    (∃ p ∈ s.points, P p.location) ↔ ∃ location ∈ s.locations, P location := by
  rw [← s.map_location_points]
  simp

/-- The points differ in where they are and what they are called only. -/
theorem shared_of_mem_points {p : PointSource α} (hp : p ∈ s.points) :
    p.regionType = s.regionType ∧ p.magnitudes = s.magnitudes ∧ p.strike = s.strike ∧
      p.rake = s.rake ∧ p.maxRuptureRadius = s.maxRuptureRadius := by
  obtain ⟨⟨location, i⟩, -, rfl⟩ := List.mem_map.mp hp
  exact ⟨rfl, rfl, rfl, rfl, rfl⟩

end MultiPointSource

variable [Scalar α]

namespace Source

/-- The site is among those that the source finds within the distance. -/
def Keeps (source : Source α) (km : α) (c : SiteCollection α) (site : Site α) : Prop :=
  ∃ kept, source.sitesWithin km c = .ok (some kept) ∧ site ∈ kept.toList

/-- The source finds what its parts find between them. -/
structure Unites (source : Source α) (parts : List (Source α)) (km : α) (c : SiteCollection α) :
    Prop where
  searches : ∃ r, source.sitesWithin km c = .ok r
  keeps_iff : ∀ site, source.Keeps km c site ↔ ∃ part ∈ parts, part.Keeps km c site
  none_iff : source.sitesWithin km c = .ok none ↔
    ∀ part ∈ parts, part.sitesWithin km c = .ok none

end Source

variable [Trig α]

theorem Site.isReached_congr {locations others : List (Point α)}
    (h : ∀ p, p ∈ locations ↔ p ∈ others) (limit : α) (s : Site α) :
    s.isReached locations limit = s.isReached others limit := by
  rw [Bool.eq_iff_iff, isReached_iff, isReached_iff]
  simp only [h]

namespace Source.OfPoints

variable {source : Source α} {locations : List (Point α)} {radius km : α} {c : SiteCollection α}
  {site : Site α}

theorem part (h : source.OfPoints locations radius) (hkm : isExtent km = true)
    (hne : locations ≠ []) (hc : c.WellFormed) :
    ∃ r, source.sitesWithin km c = .ok r ∧ c.Part (·.isReached locations (km + radius)) r := by
  rw [h.sitesWithin_eq (checkReach_iff.mpr hkm) hne hc]
  exact hc.search_filter Error.badSites _

theorem keeps_iff (h : source.OfPoints locations radius) (hkm : isExtent km = true)
    (hne : locations ≠ []) (hc : c.WellFormed) :
    source.Keeps km c site ↔
      site ∈ c.toList ∧ ∃ p ∈ locations, p.epicentral site.location ≤ km + radius := by
  obtain ⟨r, hr, hpart⟩ := h.part hkm hne hc
  rw [← Site.isReached_iff, ← hpart.mem_iff]
  simp [Keeps, hr]

theorem none_iff (h : source.OfPoints locations radius) (hkm : isExtent km = true)
    (hne : locations ≠ []) (hc : c.WellFormed) :
    source.sitesWithin km c = .ok none ↔ ∀ site, ¬source.Keeps km c site := by
  obtain ⟨r, hr, hpart⟩ := h.part hkm hne hc
  simpa [Keeps, hr] using hpart.eq_none_iff

end Source.OfPoints

namespace MultiPointSource

variable (s : MultiPointSource α)

/-- The rupture of a magnitude at one of the locations. -/
def ruptureAt (location : Point α) (magnitude : α) : Rupture α where
  magnitude
  rake := s.rake
  regionType := s.regionType
  hypocenter := location
  surface := PointSurface.toSurface ⟨location, s.strike⟩
  slip := none

theorem ruptures_of_mem_points {p : PointSource α} (hp : p ∈ s.points) :
    p.ruptures = s.magnitudes.map (s.ruptureAt p.location) := by
  obtain ⟨hregion, hmagnitudes, hstrike, hrake, -⟩ := s.shared_of_mem_points hp
  unfold PointSource.ruptures ruptureAt
  rw [hregion, hmagnitudes, hstrike, hrake]

theorem ruptures_eq_product :
    s.ruptures = (s.locations ×ˢ s.magnitudes).map fun p => s.ruptureAt p.1 p.2 := by
  have hpoints : s.points.flatMap PointSource.ruptures =
      s.points.flatMap fun p => s.magnitudes.map (s.ruptureAt p.location) :=
    List.flatMap_congr fun p hp => s.ruptures_of_mem_points hp
  calc s.ruptures
    _ = s.points.flatMap fun p => s.magnitudes.map (s.ruptureAt p.location) := hpoints
    _ = s.locations.flatMap fun location => s.magnitudes.map (s.ruptureAt location) := by
      rw [← s.map_location_points, List.flatMap_map]
    _ = (s.locations ×ˢ s.magnitudes).map fun p => s.ruptureAt p.1 p.2 := by
      simp only [SProd.sprod, List.product, List.map_flatMap, List.map_map]
      rfl

section Search

variable {s} {km : α} {c : SiteCollection α}

theorem sitesWithin_of_not_isExtent (hkm : isExtent km = false) :
    s.toSource.sitesWithin km c = .error (.geometry (.badReach km)) := by
  have hreach : Source.checkReach km = .error (.geometry (.badReach km)) := by
    unfold Source.checkReach
    rw [hkm, if_neg Bool.false_ne_true]
  simp only [toSource, hreach]
  rfl

theorem sitesWithin_of_nil (hkm : isExtent km = true) (hnil : s.locations = []) :
    s.toSource.sitesWithin km c = .error (.geometry .noLocations) := by
  have hlocations : s.checkLocations = .error (.geometry .noLocations) := by
    unfold checkLocations
    rw [hnil]
    rfl
  have hreach := Source.checkReach_iff.mpr hkm
  simp only [toSource, hreach, hlocations]
  rfl

theorem sitesWithin_error_iff [OrderedScalar α] (hc : c.WellFormed) :
    (∃ e, s.toSource.sitesWithin km c = .error e) ↔
      isFinite km = false ∨ km < 0 ∨ s.locations = [] := by
  rw [← or_assoc, ← isExtent_eq_false_iff]
  cases hkm : isExtent km with
  | false => exact iff_of_true ⟨_, sitesWithin_of_not_isExtent hkm⟩ (.inl rfl)
  | true =>
    by_cases hnil : s.locations = []
    · exact iff_of_true ⟨_, sitesWithin_of_nil hkm hnil⟩ (.inr hnil)
    · obtain ⟨r, hr, -⟩ := (Source.OfPoints.multi s).part hkm hnil hc
      simp [hr, hnil]

theorem sitesWithin_congr {locations : List (Point α)}
    (h : ∀ p, p ∈ locations ↔ p ∈ s.locations) (km : α) (hc : c.WellFormed) :
    ({ s with locations } : MultiPointSource α).toSource.sitesWithin km c =
      s.toSource.sitesWithin km c := by
  cases hkm : isExtent km with
  | false => rw [sitesWithin_of_not_isExtent hkm, sitesWithin_of_not_isExtent hkm]
  | true =>
    have hnil : locations = [] ↔ s.locations = [] := by
      simp only [List.eq_nil_iff_forall_not_mem, h]
    by_cases hne : s.locations = []
    · rw [sitesWithin_of_nil hkm (hnil.mpr hne), sitesWithin_of_nil hkm hne]
    · have hreach := Source.checkReach_iff.mpr hkm
      rw [(Source.OfPoints.multi s).sitesWithin_eq hreach hne hc,
        (Source.OfPoints.multi { s with locations }).sitesWithin_eq hreach (mt hnil.mp hne) hc]
      simp only [Site.isReached_congr h]

theorem keeps_iff_exists (hkm : isExtent km = true) (hne : s.locations ≠ []) (hc : c.WellFormed)
    (site : Site α) :
    s.toSource.Keeps km c site ↔ ∃ p ∈ s.points, p.toSource.Keeps km c site := by
  have hpoint : ∀ p ∈ s.points, p.toSource.Keeps km c site ↔
      site ∈ c.toList ∧ p.location.epicentral site.location ≤ km + s.maxRuptureRadius := by
    intro p hp
    rw [(Source.OfPoints.point p).keeps_iff hkm (List.cons_ne_nil _ _) hc,
      (s.shared_of_mem_points hp).2.2.2.2]
    simp
  rw [(Source.OfPoints.multi s).keeps_iff hkm hne hc, ← s.exists_point_iff]
  constructor
  · rintro ⟨hsite, p, hp, hreached⟩
    exact ⟨p, hp, (hpoint p hp).mpr ⟨hsite, hreached⟩⟩
  · rintro ⟨p, hp, hkeeps⟩
    obtain ⟨hsite, hreached⟩ := (hpoint p hp).mp hkeeps
    exact ⟨hsite, p, hp, hreached⟩

theorem unites_points (hkm : isExtent km = true) (hne : s.locations ≠ []) (hc : c.WellFormed) :
    s.toSource.Unites (s.points.map PointSource.toSource) km c := by
  have hwhole := Source.OfPoints.multi s
  have hkeeps := keeps_iff_exists hkm hne hc
  constructor
  case searches =>
    obtain ⟨r, hr, -⟩ := hwhole.part hkm hne hc
    exact ⟨r, hr⟩
  case keeps_iff => simpa using hkeeps
  case none_iff =>
    -- Nothing is found just when no site is kept, by the whole and by each part.
    rw [hwhole.none_iff hkm hne hc, List.forall_mem_map]
    simp only [hkeeps, not_exists, not_and]
    constructor
    · intro h p hp
      rw [(Source.OfPoints.point p).none_iff hkm (List.cons_ne_nil _ _) hc]
      exact fun site => h site p hp
    · intro h site p hp
      exact ((Source.OfPoints.point p).none_iff hkm (List.cons_ne_nil _ _) hc).mp (h p hp) site

end Search

/-- A source at several points is the union of its points. -/
theorem union_of_points [OrderedScalar α] (s : MultiPointSource α) :
    (∀ (km : α) (c : SiteCollection α), isFinite km = true → 0 ≤ km → c.Built →
      s.locations ≠ [] → s.toSource.Unites (s.points.map PointSource.toSource) km c) ∧
    (∀ (km : α) (c : SiteCollection α) (locations : List (Point α)), c.Built →
      (∀ p, p ∈ locations ↔ p ∈ s.locations) →
      ({ s with locations } : MultiPointSource α).toSource.sitesWithin km c =
        s.toSource.sitesWithin km c) ∧
    (∀ (km : α) (c : SiteCollection α), c.Built →
      ((∃ e, s.toSource.sitesWithin km c = .error e) ↔
        isFinite km = false ∨ km < 0 ∨ s.locations = [])) ∧
    s.points.map (·.location) = s.locations ∧
    s.ruptures = (s.points.map PointSource.ruptures).flatten ∧
    s.ruptures = (s.locations ×ˢ s.magnitudes).map (fun p => s.ruptureAt p.1 p.2) ∧
    s.ruptures.length = s.locations.length * s.magnitudes.length := by
  refine ⟨?_, ?_, ?_, s.map_location_points, ?_, s.ruptures_eq_product, ?_⟩
  · intro km c hfinite hnonneg hc hne
    exact unites_points (isExtent_iff.mpr ⟨hfinite, hnonneg⟩) hne hc.wellFormed
  · exact fun km c locations hc h => sitesWithin_congr h km hc.wellFormed
  · exact fun km c hc => sitesWithin_error_iff hc.wellFormed
  · exact List.flatMap_def
  · rw [ruptures_eq_product, List.length_map, List.length_product]

/-- Two points half way round the globe from each other. -/
def opposite {α : Type} [Scalar α] : MultiPointSource α :=
  ⟨"pair", "any", [⟨0, 0, 5⟩, ⟨180, 0, 5⟩], [5, 6], 0, 0, 0⟩

theorem union_of_points_opposite : ∃ (s : MultiPointSource ℝ) (c : SiteCollection ℝ),
    s.locations = [⟨0, 0, 5⟩, ⟨180, 0, 5⟩] ∧ c.Built ∧ c.toList = [⟨⟨0⟩, 180, 0, 0⟩] ∧
    s.toSource.Keeps 100 c ⟨⟨0⟩, 180, 0, 0⟩ ∧
    ({ s with locations := [⟨180, 0, 5⟩, ⟨0, 0, 5⟩, ⟨180, 0, 5⟩] } :
      MultiPointSource ℝ).toSource.sitesWithin 100 c = s.toSource.sitesWithin 100 c ∧
    (∃ e, s.toSource.sitesWithin (-1) c = .error e) ∧ s.ruptures.length = 4 := by
  have hfinite : ∀ t ∈ [(⟨⟨0⟩, 180, 0, 0⟩ : Site ℝ)], t.isFinite = true := fun _ _ => rfl
  obtain ⟨positions, hc⟩ := SiteCollection.ofSites_ok 0 hfinite (by simp)
  obtain ⟨hwellFormed, hlist⟩ := SiteCollection.wellFormed_of_ofSites hc
  obtain ⟨hunites, hcongr, hfails, -, -, -, hlength⟩ := union_of_points (opposite (α := ℝ))
  refine ⟨opposite, _, rfl, .sites hc, hlist, ?_, ?_, ?_, hlength⟩
  · have hsecond : (⟨"pair:1", "any", ⟨180, 0, 5⟩, [5, 6], 0, 0, 0⟩ : PointSource ℝ) ∈
        opposite.points :=
      List.mem_of_getElem? (i := 1) rfl
    have hkm : isExtent (100 : ℝ) = true := isExtent_exact_iff.mpr (by norm_num)
    rw [(hunites 100 _ rfl (by norm_num) (.sites hc) (List.cons_ne_nil _ _)).keeps_iff]
    refine ⟨_, List.mem_map_of_mem hsecond, ?_⟩
    rw [(Source.OfPoints.point _).keeps_iff hkm (List.cons_ne_nil _ _) hwellFormed]
    refine ⟨by simp [hlist], _, List.mem_singleton_self _, ?_⟩
    change Sphere.distance 180 0 180 0 ≤ 100 + (0 : ℝ)
    rw [Sphere.distance_refl]
    norm_num
  · refine hcongr 100 _ _ (.sites hc) fun p => ?_
    simp only [opposite, List.mem_cons, List.not_mem_nil, or_false]
    tauto
  · exact (hfails (-1) _ (.sites hc)).mpr (.inr (.inl (by norm_num)))

end MultiPointSource

end HazardReach
