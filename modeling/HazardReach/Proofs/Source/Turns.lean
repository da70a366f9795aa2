import HazardReach.Proofs.Cutoff.Table
import HazardReach.Proofs.Proximity
import HazardReach.Proofs.Source.Union
import HazardReach.Proofs.Sphere.Turns
import Mathlib.Data.List.Forall2

/-! Sources and sites under other longitudes of their meridians. The distances from a point do not
change, so that a source finds the same sites, and the same sites at the same distances are close to
a hypocentre. Nothing has to be corrected at the date line for this. -/
namespace HazardReach

theorem Site.SamePlace.isReached {s t : Site ℝ} {locations others : List (Point ℝ)}
    (hsite : s.SamePlace t) (h : List.Forall₂ Point.SamePlace locations others) (limit : ℝ) :
    s.isReached locations limit = t.isReached others limit := by
  induction h with
  | nil => rfl
  | cons hp hrest ih =>
    unfold Site.isReached at ih ⊢
    rw [List.any_cons, List.any_cons, Point.epicentral_congr hp hsite.location, ih]

namespace SiteCollection

/-- The same sites in the same order, under any longitudes of their meridians. -/
def SamePlaces (c d : SiteCollection ℝ) : Prop := List.Forall₂ Site.SamePlace c.toList d.toList

variable {c d : SiteCollection ℝ}

theorem SamePlaces.map_eq {β : Type} (h : c.SamePlaces d) {f g : Site ℝ → β}
    (hfg : ∀ s t, s.SamePlace t → f s = g t) : c.toList.map f = d.toList.map g := by
  have hmap : List.Forall₂ Eq (c.toList.map f) (d.toList.map g) := List.rel_map hfg h
  rwa [List.forall₂_eq_eq_eq] at hmap

theorem SamePlaces.ids_eq (h : c.SamePlaces d) : c.ids = d.ids := h.map_eq fun _ _ hsite => hsite.id

theorem present_rel {sites others : List (Site ℝ)} (h : List.Forall₂ Site.SamePlace sites others) :
    Option.Rel (List.Forall₂ Site.SamePlace) (present sites) (present others) := by
  cases h with
  | nil => exact .none
  | cons hsite hrest => exact .some (.cons hsite hrest)

theorem Part.samePlaces {p q : Site ℝ → Bool} {r r' : Option (SiteCollection ℝ)}
    (hc : c.Part p r) (hd : d.Part q r') (h : c.SamePlaces d)
    (hpq : ∀ s t, s.SamePlace t → p s = q t) : Option.Rel SamePlaces r r' := by
  have hfilter : List.Forall₂ Site.SamePlace (c.toList.filter p) (d.toList.filter q) :=
    List.rel_filter (fun s t hsite => Bool.eq_iff_iff.mp (hpq s t hsite)) h
  have hlists : Option.Rel (List.Forall₂ Site.SamePlace)
      (r.map SiteCollection.toList) (r'.map SiteCollection.toList) := by
    rw [hc.toList, hd.toList]
    exact present_rel hfilter
  cases r <;> cases r' <;> cases hlists
  case none.none => exact .none
  case some.some hkept => exact .some hkept

theorem map_ids_eq {r r' : Option (SiteCollection ℝ)} (h : Option.Rel SamePlaces r r') :
    r.map ids = r'.map ids := by
  cases h with
  | none => rfl
  | some hkept => exact congrArg some hkept.ids_eq

end SiteCollection

open SiteCollection

/-- A source that starts at points, and the same source with its points at other longitudes of
their meridians. -/
inductive Source.SamePlaces : Source ℝ → Source ℝ → Prop where
  | point (s : PointSource ℝ) {location : Point ℝ} (h : s.location.SamePlace location) :
      SamePlaces s.toSource { s with location }.toSource
  | multi (s : MultiPointSource ℝ) {locations : List (Point ℝ)}
      (h : List.Forall₂ Point.SamePlace s.locations locations) :
      SamePlaces s.toSource { s with locations }.toSource

namespace Source

variable {source source' : Source ℝ} {c d : SiteCollection ℝ} {km : ℝ}

theorem SamePlaces.exists_ofPoints (h : source.SamePlaces source') :
    ∃ locations others radius, source.OfPoints locations radius ∧
      source'.OfPoints others radius ∧ List.Forall₂ Point.SamePlace locations others := by
  cases h with
  | point s hlocation => exact ⟨_, _, _, .point s, .point _, .cons hlocation .nil⟩
  | multi s hlocations => exact ⟨_, _, _, .multi s, .multi _, hlocations⟩

theorem OfPoints.sitesWithin_of_nil {locations : List (Point ℝ)} {radius : ℝ}
    (h : source.OfPoints locations radius) (hnil : locations = []) (hkm : 0 ≤ km) :
    source.sitesWithin km c = .error (.geometry .noLocations) := by
  cases h with
  | point s => contradiction
  | multi s => exact MultiPointSource.sitesWithin_of_nil (Scalar.isExtent_exact_iff.mpr hkm) hnil

theorem SamePlaces.sitesWithin_eq (h : source.SamePlaces source') (hkm : 0 ≤ km)
    (hc : c.WellFormed) (hd : d.WellFormed) (hcd : c.SamePlaces d) :
    (source.sitesWithin km c).map (Option.map ids) =
      (source'.sitesWithin km d).map (Option.map ids) := by
  obtain ⟨locations, others, radius, hsource, hsource', hlocations⟩ := h.exists_ofPoints
  have hextent := Scalar.isExtent_exact_iff.mpr hkm
  cases hlocations with
  | nil => rw [hsource.sitesWithin_of_nil rfl hkm, hsource'.sitesWithin_of_nil rfl hkm]
  | cons hp hrest =>
    obtain ⟨kept, hkept, hpart⟩ := hsource.part hextent (List.cons_ne_nil _ _) hc
    obtain ⟨kept', hkept', hpart'⟩ := hsource'.part hextent (List.cons_ne_nil _ _) hd
    have hrel := hpart.samePlaces hpart' hcd fun s t hsite =>
      hsite.isReached (.cons hp hrest) (km + radius)
    rw [hkept, hkept']
    exact congrArg Except.ok (map_ids_eq hrel)

end Source

/-- The ruptures answer to the same cutoff and start at one place. -/
structure Rupture.SameHypocenter (r r' : Rupture ℝ) : Prop where
  regionType : r.regionType = r'.regionType
  magnitude : r.magnitude = r'.magnitude
  hypocenter : r.hypocenter.SamePlace r'.hypocenter

/-- What an outcome tells: the identifiers and the distances of the sites in reach. -/
def Proximity.told {α : Type} : Proximity α → Option (List SiteId × List α)
  | .farAway => none
  | .close sites distances => some (sites.ids, distances)

theorem Proximity.told_ofFound_congr {measure measure' : Point ℝ → ℝ}
    {found found' : Option (SiteCollection ℝ)} (h : Option.Rel SamePlaces found found')
    (hmeasure : ∀ s t : Site ℝ, s.SamePlace t → measure s.location = measure' t.location) :
    (ofFound measure found).told = (ofFound measure' found').told := by
  cases h with
  | none => rfl
  | some hkept => simp only [ofFound, told, hkept.ids_eq, hkept.map_eq hmeasure]

namespace Rupture.SameHypocenter

variable {r r' : Rupture ℝ} {c d : SiteCollection ℝ} {metric : Metric}

theorem exists_measures (h : r.SameHypocenter r') (hmetric : metric ∈ [Metric.repi, .rhypo]) :
    ∃ measure measure' : Point ℝ → ℝ,
      (∀ s t : Site ℝ, s.SamePlace t → measure s.location = measure' t.location) ∧
      ∀ c : SiteCollection ℝ,
        r.distances c.mesh metric = .ok (c.toList.map fun s => measure s.location) ∧
        r'.distances c.mesh metric = .ok (c.toList.map fun s => measure' s.location) := by
  simp only [List.mem_cons, List.not_mem_nil, or_false] at hmetric
  rcases hmetric with rfl | rfl
  · refine ⟨_, _, fun s t hsite => Point.epicentral_congr h.hypocenter hsite.location, ?_⟩
    intro c
    simp [distances, epicentrals_mesh]
  · refine ⟨_, _, fun s t hsite => Point.hypocentral_congr h.hypocenter hsite.location, ?_⟩
    intro c
    simp [distances, hypocentrals_mesh]

theorem closest_eq (h : r.SameHypocenter r') (hmetric : metric ∈ [Metric.repi, .rhypo])
    (hc : c.WellFormed) (hd : d.WellFormed) (hcd : c.SamePlaces d) (t : CutoffTable ℝ) :
    (t.closest c r metric).map Proximity.told = (t.closest d r' metric).map Proximity.told := by
  obtain ⟨measure, measure', hmeasure, hdistances⟩ := h.exists_measures hmetric
  have hleft := (hdistances c).1
  have hright := (hdistances d).2
  cases hempty : t.isEmpty with
  | true =>
    rw [CutoffTable.closest_of_isEmpty hleft hempty, CutoffTable.closest_of_isEmpty hright hempty]
    exact congrArg Except.ok (Proximity.told_ofFound_congr (.some hcd) hmeasure)
  | false =>
    have hget : t.get r'.regionType (some r'.magnitude) =
        t.get r.regionType (some r.magnitude) := by
      rw [h.regionType, h.magnitude]
    cases hkm : t.get r.regionType (some r.magnitude) with
    | error e =>
      rw [CutoffTable.closest_of_get_error hleft hempty hkm,
        CutoffTable.closest_of_get_error hright hempty (hget.trans hkm)]
    | ok km =>
      obtain ⟨found, hpart, -, hfound⟩ := CutoffTable.closest_eq hempty hkm hc hleft
      obtain ⟨found', hpart', -, hfound'⟩ :=
        CutoffTable.closest_eq hempty (hget.trans hkm) hd hright
      have hkept := hpart.samePlaces hpart' hcd fun s t hsite => by rw [hmeasure s t hsite]
      rw [hfound, hfound']
      exact congrArg Except.ok (Proximity.told_ofFound_congr hkept hmeasure)

end Rupture.SameHypocenter

private theorem exists_built {sites : List (Site ℝ)} (hnodup : (sites.map (·.id)).Nodup) :
    ∃ c : SiteCollection ℝ, c.Built ∧ c.toList = sites := by
  obtain ⟨positions, hc⟩ := ofSites_ok 0 (fun _ _ => rfl) hnodup
  exact ⟨_, .sites hc, (wellFormed_of_ofSites hc).2⟩

/-- Distances do not tell apart longitudes that are whole turns apart, and neither do the searches
that are made of them. -/
theorem nearness_by_meridian :
    (∀ lon lat lon' lat' : ℝ,
      Sphere.distance lon lat lon' lat' = Sphere.distance lon' lat' lon lat) ∧
    (∀ lon lat : ℝ, Sphere.distance lon lat lon lat = 0) ∧
    (∀ (lon lat lon' lat' : ℝ) (turns turns' : ℤ),
      Sphere.distance (lon + 360 * turns) lat (lon' + 360 * turns') lat' =
        Sphere.distance lon lat lon' lat') ∧
    ∀ c d : SiteCollection ℝ, c.Built → d.Built → c.SamePlaces d →
      (∀ source source' : Source ℝ, source.SamePlaces source' → ∀ km, 0 ≤ km →
        (source.sitesWithin km c).map (Option.map ids) =
          (source'.sitesWithin km d).map (Option.map ids)) ∧
      (∀ (source : Source ℝ) (locations : List (Point ℝ)) (radius : ℝ),
        source.OfPoints locations radius → locations ≠ [] → ∀ km, 0 ≤ km →
          ∃ kept, source.sitesWithin km c = .ok kept) ∧
      ∀ (t : CutoffTable ℝ) (r r' : Rupture ℝ), r.SameHypocenter r' →
        ∀ metric ∈ [Metric.repi, .rhypo],
          (t.closest c r metric).map Proximity.told =
            (t.closest d r' metric).map Proximity.told := by
  refine ⟨Sphere.distance_comm, Sphere.distance_refl, Sphere.distance_turns, ?_⟩
  intro c d hc hd hcd
  refine ⟨?_, ?_, ?_⟩
  · intro source source' h km hkm
    exact h.sitesWithin_eq hkm hc.wellFormed hd.wellFormed hcd
  · intro source locations radius h hne km hkm
    obtain ⟨kept, hkept, -⟩ := h.part (Scalar.isExtent_exact_iff.mpr hkm) hne hc.wellFormed
    exact ⟨kept, hkept⟩
  · intro t r r' h metric hmetric
    exact h.closest_eq hmetric hc.wellFormed hd.wellFormed hcd t

section DateLine

def PointSource.onDateLine {α : Type} [Scalar α] : PointSource α :=
  ⟨"line", "any", ⟨180, 0, 5⟩, [5], 0, 0, 0⟩

def Rupture.onDateLine {α : Type} [Scalar α] [Trig α] : Rupture α :=
  ⟨5, 0, "any", ⟨180, 0, 5⟩, PointSurface.toSurface ⟨⟨180, 0, 5⟩, 0⟩, none⟩

private theorem exists_turned : ∃ c d : SiteCollection ℝ, c.Built ∧ d.Built ∧ c.SamePlaces d ∧
    c.toList = [⟨⟨7⟩, -180, 0, 0⟩, ⟨⟨3⟩, 0, 0, 0⟩] ∧
    d.toList = [⟨⟨7⟩, 540, 0, 0⟩, ⟨⟨3⟩, 360, 0, 0⟩] := by
  obtain ⟨c, hc, hlist⟩ := @exists_built [⟨⟨7⟩, -180, 0, 0⟩, ⟨⟨3⟩, 0, 0, 0⟩] (by simp)
  obtain ⟨d, hd, hlist'⟩ := @exists_built [⟨⟨7⟩, 540, 0, 0⟩, ⟨⟨3⟩, 360, 0, 0⟩] (by simp)
  have hturned : Site.SamePlace ⟨⟨7⟩, -180, 0, 0⟩ ⟨⟨7⟩, 540, 0, 0⟩ :=
    ⟨rfl, Longitude.sameMeridian_iff.mpr ⟨2, by norm_num [Site.location]⟩, rfl, rfl⟩
  have hturned' : Site.SamePlace ⟨⟨3⟩, 0, 0, 0⟩ ⟨⟨3⟩, 360, 0, 0⟩ :=
    ⟨rfl, Longitude.sameMeridian_iff.mpr ⟨1, by norm_num [Site.location]⟩, rfl, rfl⟩
  refine ⟨c, d, hc, hd, ?_, hlist, hlist'⟩
  unfold SamePlaces
  rw [hlist, hlist']
  exact .cons hturned (.cons hturned' .nil)

/-- A source and a rupture at the date line, with one site there and one across the globe. The site
is found, and found close, from where all of them are written a turn away. -/
theorem nearness_by_meridian_dateLine :
    ∃ (c d : SiteCollection ℝ) (s : PointSource ℝ) (t : CutoffTable ℝ) (r : Rupture ℝ),
      c.Built ∧ d.Built ∧ c.lons = [-180, 0] ∧ d.lons = [540, 360] ∧ s.location = ⟨180, 0, 5⟩ ∧
      (({ s with location := ⟨-180, 0, 5⟩ } : PointSource ℝ).toSource.sitesWithin 100 d).map
        (Option.map ids) = .ok (some [⟨7⟩]) ∧
      r.hypocenter = ⟨-180, 0, 5⟩ ∧
      (t.closest d r .repi).map Proximity.told = .ok (some ([⟨7⟩], [0])) := by
  obtain ⟨hcomm, hzero, hturns, hsearches⟩ := nearness_by_meridian
  have hnear : Sphere.distance (180 : ℝ) 0 (-180) 0 = 0 := by
    have hturn := hturns 180 0 180 0 0 (-1)
    norm_num [hzero] at hturn
    exact hturn
  have hfar : 100 < Sphere.distance (180 : ℝ) 0 0 0 := by
    have hpi := Real.pi_gt_three
    have hacross := Sphere.distance_across_pole 0 (le_refl (0 : ℝ)) (by norm_num)
    rw [zero_add] at hacross
    rw [hcomm, hacross]
    linarith
  obtain ⟨c, d, hc, hd, hcd, hlist, hlist'⟩ := exists_turned
  have hturned : Point.SamePlace ⟨180, 0, 5⟩ ⟨-180, 0, 5⟩ :=
    ⟨Longitude.sameMeridian_iff.mpr ⟨-1, by norm_num⟩, rfl, rfl⟩
  obtain ⟨hsource, -, hclosest⟩ := hsearches c d hc hd hcd
  have hkm : Scalar.isExtent (100 : ℝ) = true := Scalar.isExtent_exact_iff.mpr (by norm_num)
  obtain ⟨t, -, hempty, hget⟩ := CutoffTable.exists_fixed hkm
  have hpresent : present (c.toList.filter fun site => decide
      (Sphere.distance 180 0 site.lon site.lat ≤ 100)) = some [⟨⟨7⟩, -180, 0, 0⟩] := by
    rw [hlist]
    simp [present, hnear, hfar]
  refine ⟨c, d, .onDateLine, t, { Rupture.onDateLine with hypocenter := ⟨-180, 0, 5⟩ }, hc, hd, ?_,
    ?_, rfl, ?_, rfl, ?_⟩
  · simp [lons, hlist]
  · simp [lons, hlist']
  · rw [← hsource _ _ (.point .onDateLine hturned) 100 (by norm_num)]
    obtain ⟨found, hfound, hpart⟩ := (Source.OfPoints.point .onDateLine).part hkm
      (List.cons_ne_nil _ _) hc.wellFormed
    have hreached : (fun site : Site ℝ => site.isReached [PointSource.onDateLine.location]
          (100 + PointSource.onDateLine.maxRuptureRadius)) =
        fun site => decide (Sphere.distance 180 0 site.lon site.lat ≤ 100) := by
      funext site
      simp [Site.isReached, PointSource.onDateLine, Point.epicentral, Site.location]
    rw [hreached] at hpart
    obtain ⟨kept, rfl, hkept⟩ := Option.map_eq_some_iff.mp (hpart.toList.trans hpresent)
    simp [hfound, Except.map, ids, hkept]
  · rw [← hclosest t .onDateLine { Rupture.onDateLine with hypocenter := ⟨-180, 0, 5⟩ }
      ⟨rfl, rfl, hturned⟩ .repi (by simp)]
    have hdistances : Rupture.onDateLine.distances c.mesh .repi =
        .ok (c.toList.map fun site => Rupture.onDateLine.hypocenter.epicentral site.location) :=
      congrArg Except.ok (epicentrals_mesh Rupture.onDateLine.hypocenter c)
    obtain ⟨found, hpart, -, hfound⟩ :=
      CutoffTable.closest_eq hempty (hget _ _) hc.wellFormed hdistances
    obtain ⟨close, rfl, hclose⟩ := Option.map_eq_some_iff.mp (hpart.toList.trans hpresent)
    rw [hfound]
    simp [Except.map, Proximity.ofFound, Proximity.told, ids, hclose, Rupture.onDateLine,
      Point.epicentral, Site.location, hnear]

end DateLine

end HazardReach
