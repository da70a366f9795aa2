import HazardReach.Proofs.Screen.Reach
import HazardReach.Proofs.Source.Points
import HazardReach.Proofs.Sphere.Reach

/-! Point sources with and without an index. Without one a source takes the sites that one of its
locations reaches on the sphere; with one it takes the sites within the margins of the box around
its locations, which is flat. The two agree on a site just when its margins hold, which they do for
two parts in pi of the reach as long as they are a quarter turn at most. -/
namespace HazardReach

variable {K : Type} [Field K] [LinearOrder K] [FloorRing K] [IsStrictOrderedRing K] [Trig K]

namespace Point

/-- Locations in use. -/
structure InRange (p : Point K) : Prop where
  le_lon : -180 ≤ p.lon
  lon_le : p.lon ≤ 180
  le_lat : -90 ≤ p.lat
  lat_le : p.lat ≤ 90

/-- The other point is within the margins of this one, its longitude by some number of turns. -/
structure Nears (p : Point K) (around : Box K) (km : K) (q : Point K) : Prop where
  lat : |q.lat - p.lat| ≤ Box.latMargin km
  lon : ∃ m : ℤ, |q.lon - p.lon + 360 * m| ≤ around.lonMargin km

end Point

section Around

variable {locations : List (Point K)} {around : Box K} {km : K}

omit [IsStrictOrderedRing K] [Trig K] in
theorem Box.enclosing_lat_range (hlocations : ∀ p ∈ locations, p.InRange)
    (h : around.Encloses (locations.map (·.lon)) (locations.map (·.lat))) :
    (-90 ≤ around.south ∧ around.south ≤ 90) ∧ -90 ≤ around.north ∧ around.north ≤ 90 := by
  have hlat : ∀ lat ∈ locations.map (·.lat), -90 ≤ lat ∧ lat ≤ 90 := by
    intro lat hmem
    obtain ⟨p, hp, rfl⟩ := List.mem_map.mp hmem
    exact ⟨(hlocations p hp).le_lat, (hlocations p hp).lat_le⟩
  exact ⟨hlat _ h.south_mem, hlat _ h.north_mem⟩

theorem Box.lonMargin_nonneg_of_encloses (hlocations : ∀ p ∈ locations, p.InRange)
    (h : around.Encloses (locations.map (·.lon)) (locations.map (·.lat))) (hkm : 0 ≤ km)
    (hcos : ∀ x : K, |x| ≤ 90 → 0 ≤ Trig.cos (Trig.toRadians x)) : 0 ≤ around.lonMargin km := by
  apply Box.lonMargin_nonneg hkm
  apply hcos
  rw [abs_of_nonneg (le_max_of_le_left (abs_nonneg _)), max_le_iff, abs_le, abs_le]
  exact Box.enclosing_lat_range hlocations h

/-- What is within the margins of a location is reached by the box around the locations, where the
date line is not written both ways among others. -/
theorem Box.onArc_enlarged_of_nears (hlocations : ∀ p ∈ locations, p.InRange)
    (h : around.Encloses (locations.map (·.lon)) (locations.map (·.lat))) (hkm : 0 ≤ km)
    (hmargin : 0 ≤ around.lonMargin km)
    (hspelled : (∃ p ∈ locations, p.lon = -180) → (∃ p ∈ locations, p.lon = 180) →
      ∀ p ∈ locations, p.lon = -180 ∨ p.lon = 180)
    {p q : Point K} (hp : p ∈ locations) (hnears : p.Nears around km q) :
    (around.south - latMargin km ≤ q.lat ∧ q.lat ≤ around.north + latMargin km) ∧
      (around.enlarged km).OnArc q.lon := by
  have hrange := Box.enclosing_lat_range hlocations h
  have hbetween := h.lat p.lat (List.mem_map_of_mem hp)
  have hlat := abs_le.mp hnears.lat
  obtain ⟨m, hlon⟩ := hnears.lon
  refine ⟨⟨by linarith [hlat.1], by linarith [hlat.2]⟩, ?_⟩
  rcases h.width with hwidth | hfull
  · rw [h.inRange.enlarged_onArc_iff hkm hmargin hrange.1.2 hrange.2.1 hwidth]
    obtain ⟨k, hk, hk'⟩ := h.onArc p.lon (List.mem_map_of_mem hp)
    refine ⟨p.lon - 360 * m, ⟨k + m, by push_cast; linarith, by push_cast; linarith⟩, ?_⟩
    have heq : q.lon - (p.lon - 360 * m) = q.lon - p.lon + 360 * m := by ring
    rw [heq]
    exact hlon
  · have hedges := h.inRange.edges_of_width_eq hfull
    obtain ⟨west, hwest, hwest_lon⟩ := List.mem_map.mp h.west_mem
    obtain ⟨east, heast, heast_lon⟩ := List.mem_map.mp h.east_mem
    have hdate := hspelled ⟨west, hwest, hwest_lon.trans hedges.1⟩
      ⟨east, heast, heast_lon.trans hedges.2⟩ p hp
    rcases hdate with hdate | hdate
    · apply h.inRange.enlarged_onArc_of_dateLine (m := m + 1) hmargin hfull
      have heq : q.lon + 360 * ((m + 1 : ℤ) : K) - 180 = q.lon - p.lon + 360 * m := by
        rw [hdate]
        push_cast
        ring
      rw [heq]
      exact hlon
    · apply h.inRange.enlarged_onArc_of_dateLine (m := m) hmargin hfull
      have heq : q.lon + 360 * (m : K) - 180 = q.lon - p.lon + 360 * m := by
        rw [hdate]
        ring
      rw [heq]
      exact hlon

end Around

theorem Box.lonMargin_mul_cos {around : Box ℝ} {km : ℝ}
    (hcos : 0 < Trig.cos (Trig.toRadians (max |around.south| |around.north|)))
    (hhalf : around.lonMargin km < 180) :
    around.lonMargin km * Trig.cos (Trig.toRadians (max |around.south| |around.north|)) =
      km * Sphere.degreesPerKm := by
  have hwidth : around.lonMargin km = km * Sphere.degreesPerKm /
      Trig.cos (Trig.toRadians (max |around.south| |around.north|)) :=
    (min_choice _ _).resolve_right hhalf.ne
  rw [hwidth, div_mul_cancel₀ _ hcos.ne']

/-- What two parts in pi of the limit reach on the sphere is within the margins, as long as these
are a quarter turn at most. -/
theorem Point.nears_of_epicentral_le {p q : Point ℝ} {around : Box ℝ} {km : ℝ} (hkm : 0 ≤ km)
    (hp : |p.lat| ≤ max |around.south| |around.north|)
    (hpole : max |around.south| |around.north| < 90) (hq : |q.lat| ≤ 90)
    (hquarter : around.lonMargin km ≤ 90)
    (h : p.epicentral q * (Real.pi / 2) ≤ km * Sphere.degreesPerKm * Sphere.kmPerDegree) :
    p.Nears around km q := by
  have hlat : |p.lat| < 90 := hp.trans_lt hpole
  have hdegree : 0 < (Sphere.kmPerDegree : ℝ) := Sphere.kmPerDegree_pos
  have hpi := Real.pi_gt_three
  have hcos : 0 < Trig.cos (Trig.toRadians (max |around.south| |around.north|)) := by
    apply Sphere.cos_toRadians_pos
    rwa [abs_of_nonneg (le_max_of_le_left (abs_nonneg _))]
  have hmargin : 0 ≤ around.lonMargin km := Box.lonMargin_nonneg hkm hcos.le
  have hwidth := Box.lonMargin_mul_cos hcos (by linarith)
  constructor
  case lat =>
    have hway := Sphere.abs_lat_sub_le hlat.le hq p.lon q.lon
    have hlong : p.epicentral q ≤ p.epicentral q * (Real.pi / 2) :=
      le_mul_of_one_le_right (Sphere.distance_nonneg _ _ _ _) (by linarith)
    have hle : |p.lat - q.lat| ≤ km * Sphere.degreesPerKm :=
      le_of_mul_le_mul_right (hway.trans (hlong.trans h)) hdegree
    have hninety : km * Sphere.degreesPerKm ≤ 90 := by
      rw [← hwidth]
      exact (mul_le_of_le_one_right hmargin (Real.cos_le_one _)).trans hquarter
    rw [abs_sub_comm]
    exact le_min hle (hle.trans hninety)
  case lon =>
    have hnearer : Trig.cos (Trig.toRadians (max |around.south| |around.north|)) ≤
        Trig.cos (Trig.toRadians p.lat) := by
      change Real.cos (_ * (Real.pi / 180)) ≤ Real.cos (p.lat * (Real.pi / 180))
      rw [← Real.cos_abs (p.lat * _), abs_mul, abs_of_pos (show 0 < Real.pi / 180 by positivity)]
      apply Real.cos_le_cos_of_nonneg_of_le_pi (by positivity)
      · nlinarith
      · exact mul_le_mul_of_nonneg_right hp (by positivity)
    have hscaled := mul_le_mul_of_nonneg_left hnearer hmargin
    rw [hwidth] at hscaled
    apply Sphere.exists_turn_of_distance_le hlat hq hmargin hquarter
    exact h.trans (mul_le_mul_of_nonneg_right hscaled hdegree.le)

theorem Box.lonMargin_mem_of_near_pole (lon : ℝ) {lat km : ℝ} (hlow : 89 ≤ lat)
    (hhigh : lat < 90) (hkm : 0 ≤ km) (hle : km * Sphere.degreesPerKm ≤ 3 * (90 - lat)) :
    0 ≤ (Box.ofLocation lon lat).lonMargin km ∧ (Box.ofLocation lon lat).lonMargin km < 180 := by
  have hcos := Sphere.lt_cos_toRadians hlow hhigh
  have hpos : 0 < Trig.cos (Trig.toRadians lat) := by linarith
  have hwidth : km * Sphere.degreesPerKm / Trig.cos (Trig.toRadians lat) < 180 := by
    rw [div_lt_iff₀ hpos]
    linarith
  rw [Box.lonMargin_ofLocation lon (by linarith)]
  refine ⟨le_min ?_ (by norm_num), min_lt_of_left_lt hwidth⟩
  exact div_nonneg (mul_nonneg hkm Box.degreesPerKm_nonneg) hpos.le

namespace Screen

variable {own : SiteCollection K} {cutoffs : CutoffTable K} {kind : IndexKind}
  {sources : List (Source K)} {source : Source K} {locations : List (Point K)} {radius km : K}
  {b : Box K} {s : Site K}

omit [IsStrictOrderedRing K] in
theorem geometric_pairs_iff (hown : own.Built) (hempty : cutoffs.isEmpty = false)
    (hpoints : source.OfPoints locations radius) (hsource : source ∈ sources)
    (hkm : cutoffs.get source.regionType none = .ok km) (hbox : source.box km = .ok b) :
    (build (some own) cutoffs .none).Pairs sources none source s ↔
      s ∈ own.toList ∧ ∃ p ∈ locations, p.epicentral s.location ≤ km + radius := by
  obtain ⟨r, hr, hpart⟩ := hpoints.sitesWithin hbox hown.wellFormed
  have hindex := index_build_none own cutoffs
  have hgives := gives_of_sitesWithin hindex hempty hkm hr hpart
  rw [hgives.pairs_iff rfl rfl hsource, Site.isReached_iff]

theorem indexed_pairs_iff (hown : own.Built) (hsites : ∀ t ∈ own.toList, t.location.InRange)
    (huse : (build (some own) cutoffs kind).usesIndex = true) (hsource : source ∈ sources)
    (hkm : cutoffs.get source.regionType none = .ok km) {around : Box K} {limit : K}
    (hbox : source.box km = .ok (around.enlarged limit)) (hb : (around.enlarged limit).InRange)
    (hgrazes : ¬(build (some own) cutoffs kind).frame.Grazes (around.enlarged limit) s.lon) :
    (build (some own) cutoffs kind).Pairs sources none source s ↔
      s ∈ own.toList ∧ (around.south - Box.latMargin limit ≤ s.lat ∧
        s.lat ≤ around.north + Box.latMargin limit) ∧ (around.enlarged limit).OnArc s.lon := by
  rw [pairs_iff_finds hown hown huse rfl (fun _ ht => ht) hsource hkm hbox hb]
  apply and_congr_right
  intro hs
  have hrange := hsites s hs
  exact and_congr (Box.enlarged_lat_iff hrange.le_lat hrange.lat_le)
    (Frame.finds_iff_onArc_of_not_grazes _ hb hrange.le_lon hrange.lon_le hgrazes)

theorem indexed_of_nears (hown : own.Built) (hsites : ∀ t ∈ own.toList, t.location.InRange)
    (huse : (build (some own) cutoffs kind).usesIndex = true) (hsource : source ∈ sources)
    (hkm : cutoffs.get source.regionType none = .ok km) {around : Box K} {limit : K}
    (hlimit : 0 ≤ limit) (hbox : source.box km = .ok (around.enlarged limit))
    (hlocations : ∀ p ∈ locations, p.InRange)
    (hencloses : around.Encloses (locations.map (·.lon)) (locations.map (·.lat)))
    (hcos : ∀ x : K, |x| ≤ 90 → 0 ≤ Trig.cos (Trig.toRadians x))
    (hgrazes : ¬(build (some own) cutoffs kind).frame.Grazes (around.enlarged limit) s.lon)
    (hspelled : (∃ p ∈ locations, p.lon = -180) → (∃ p ∈ locations, p.lon = 180) →
      ∀ p ∈ locations, p.lon = -180 ∨ p.lon = 180)
    (hs : s ∈ own.toList) {p : Point K} (hp : p ∈ locations)
    (hnears : p.Nears around limit s.location) :
    (build (some own) cutoffs kind).Pairs sources none source s := by
  have hmargin := Box.lonMargin_nonneg_of_encloses hlocations hencloses hlimit hcos
  have hrange := Box.enclosing_lat_range hlocations hencloses
  have hb := hencloses.inRange.enlarged hlimit hmargin hrange.1.2 hrange.2.1
  rw [indexed_pairs_iff hown hsites huse hsource hkm hbox hb hgrazes]
  exact ⟨hs, Box.onArc_enlarged_of_nears hlocations hencloses hlimit hmargin hspelled hp hnears⟩

/-- A site that a point source is paired with for its reach stays paired with it when the screen
has an index, if it is within the margins of one of the locations. An index keeps just the sites
within the margins of the box around them. -/
theorem prefilter_of_nears (hown : own.Built) (hsites : ∀ t ∈ own.toList, t.location.InRange)
    (huse : (build (some own) cutoffs kind).usesIndex = true)
    (hpoints : source.OfPoints locations radius) (hradius : 0 ≤ radius)
    (hlocations : ∀ p ∈ locations, p.InRange)
    (hcos : ∀ x : K, |x| ≤ 90 → 0 ≤ Trig.cos (Trig.toRadians x)) (hsource : source ∈ sources)
    (hkm : cutoffs.get source.regionType none = .ok km) (hbox : source.box km = .ok b)
    (hgrazes : ¬(build (some own) cutoffs kind).frame.Grazes b s.lon) :
    ∃ around, Box.enclosing (locations.map (·.lon)) (locations.map (·.lat)) = .ok around ∧
      ((build (some own) cutoffs .none).Pairs sources none source s ↔
        s ∈ own.toList ∧ ∃ p ∈ locations, p.epicentral s.location ≤ km + radius) ∧
      (around.width < 360 → Trig.cos (Trig.toRadians (max |around.south| |around.north|)) ≠ 0 →
        ((build (some own) cutoffs kind).Pairs sources none source s ↔
          s ∈ own.toList ∧ around.Nears (km + radius) s.lon s.lat)) ∧
      (((∃ p ∈ locations, p.lon = -180) → (∃ p ∈ locations, p.lon = 180) →
          ∀ p ∈ locations, p.lon = -180 ∨ p.lon = 180) →
        (∃ p ∈ locations, p.Nears around (km + radius) s.location) →
          (build (some own) cutoffs .none).Pairs sources none source s →
            (build (some own) cutoffs kind).Pairs sources none source s) := by
  have hlon : ∀ p ∈ locations, -180 ≤ p.lon ∧ p.lon ≤ 180 :=
    fun p hp => ⟨(hlocations p hp).le_lon, (hlocations p hp).lon_le⟩
  have hempty := (usesIndex_build_iff.mp huse).1
  have hgeometric := geometric_pairs_iff (s := s) hown hempty hpoints hsource hkm hbox
  obtain ⟨hkm0, around, haround, rfl⟩ := hpoints.box hlon hbox
  have hencloses := Box.encloses_of_enclosing haround
  have hlimit : 0 ≤ km + radius := add_nonneg hkm0 hradius
  refine ⟨around, haround, hgeometric, ?_, ?_⟩
  · intro hwidth _
    have hmargin := Box.lonMargin_nonneg_of_encloses hlocations hencloses hlimit hcos
    have hrange := Box.enclosing_lat_range hlocations hencloses
    have hb := hencloses.inRange.enlarged hlimit hmargin hrange.1.2 hrange.2.1
    have hhalf : around.width ≤ 180 := hencloses.width.resolve_right hwidth.ne
    rw [indexed_pairs_iff hown hsites huse hsource hkm hbox hb hgrazes,
      hencloses.inRange.enlarged_onArc_iff hlimit hmargin hrange.1.2 hrange.2.1 hhalf]
    rfl
  · intro hspelled ⟨p, hp, hnears⟩ hpairs
    exact indexed_of_nears hown hsites huse hsource hkm hlimit hbox hlocations hencloses hcos
      hgrazes hspelled (hgeometric.mp hpairs).1 hp hnears

section Nearby

private theorem distance_nearby :
    Sphere.distance 10 45 10.2 (45.15 : ℝ) ≤ Real.pi / 2 * Sphere.kmPerDegree * 0.25 := by
  have hplane : Real.sqrt ((45 - 45.15) ^ 2 + (10 - 10.2) ^ 2) = 0.25 := by
    rw [show ((45 : ℝ) - 45.15) ^ 2 + (10 - 10.2) ^ 2 = 0.25 ^ 2 by norm_num]
    exact Real.sqrt_sq (by norm_num)
  have hle := Sphere.distance_le (show |(45 : ℝ)| ≤ 90 by norm_num)
    (show |(45.15 : ℝ)| ≤ 90 by norm_num) 10 10.2
  rwa [hplane] at hle

private theorem nears_nearby :
    (⟨10, 45, 5⟩ : Point ℝ).Nears (Box.ofLocation 10 45) (100 + 0) ⟨10.2, 45.15, 0⟩ := by
  have hpi := Real.pi_gt_three
  have hpi' := Real.pi_lt_d2
  have hdegree : 0 < (Sphere.kmPerDegree : ℝ) := Sphere.kmPerDegree_pos
  have hcos : 1 / 2 ≤ Trig.cos (Trig.toRadians (45 : ℝ)) := by
    change 1 / 2 ≤ Real.cos (45 * (Real.pi / 180))
    rw [show 45 * (Real.pi / 180) = Real.pi / 4 by ring, Real.cos_pi_div_four]
    linarith [Real.one_le_sqrt.mpr (show (1 : ℝ) ≤ 2 by norm_num)]
  apply Point.nears_of_epicentral_le (by norm_num)
  · norm_num [Box.ofLocation]
  · norm_num [Box.ofLocation]
  · norm_num
  · rw [Box.lonMargin_ofLocation 10 (by norm_num)]
    apply min_le_of_left_le
    rw [div_le_iff₀ (by linarith)]
    change (100 + 0) * (89932 / 10000000 : ℝ) ≤ _
    linarith
  · have hsquare : Real.pi / 2 * (Real.pi / 2) * 0.25 ≤ (100 + 0) * (89932 / 10000000) := by
      nlinarith
    calc
      Sphere.distance 10 45 10.2 45.15 * (Real.pi / 2) ≤
          Real.pi / 2 * Sphere.kmPerDegree * 0.25 * (Real.pi / 2) :=
        mul_le_mul_of_nonneg_right distance_nearby (by positivity)
      _ = Real.pi / 2 * (Real.pi / 2) * 0.25 * Sphere.kmPerDegree := by ring
      _ ≤ _ := mul_le_mul_of_nonneg_right hsquare hdegree.le

/-- A site some way from the source, in latitude and in longitude. -/
theorem prefilter_keeps_nearby :
    ∃ (own : SiteCollection ℝ) (cutoffs : CutoffTable ℝ), own.toList = [⟨⟨0⟩, 10.2, 45.15, 0⟩] ∧
      (build (some own) cutoffs .tree).usesIndex = true ∧
      (build (some own) cutoffs .tree).Pairs
        [PointSource.toSource ⟨"point", "any", ⟨10, 45, 5⟩, [], 0, 0, 0⟩] none
        (PointSource.toSource ⟨"point", "any", ⟨10, 45, 5⟩, [], 0, 0, 0⟩)
        ⟨⟨0⟩, 10.2, 45.15, 0⟩ := by
  obtain ⟨own, cutoffs, hown, hlist, huse, hget⟩ :=
    exists_usesIndex (α := ℝ) [⟨⟨0⟩, 10.2, 45.15, 0⟩] .tree 100 (fun _ _ => rfl) (by simp)
      (by simp) (by decide) (Scalar.isExtent_exact_iff.mpr (by norm_num))
  have hsites : ∀ t ∈ own.toList, t.location.InRange := by
    intro t ht
    rw [hlist, List.mem_singleton] at ht
    rw [ht]
    constructor <;> norm_num [Site.location]
  have hlocations : ∀ p ∈ [(⟨10, 45, 5⟩ : Point ℝ)], p.InRange := by
    intro p hp
    rw [List.mem_singleton] at hp
    rw [hp]
    constructor <;> norm_num
  have hbox := PointSource.box_eq (⟨"point", "any", ⟨10, 45, 5⟩, [], 0, 0, 0⟩ : PointSource ℝ)
    (show (0 : ℝ) ≤ 100 by norm_num)
  obtain ⟨around, haround, hgeometric, -, hkeep⟩ :=
    prefilter_of_nears (s := ⟨⟨0⟩, 10.2, 45.15, 0⟩) hown hsites huse (.point _) le_rfl hlocations
      (fun _ hx => Sphere.cos_toRadians_nonneg hx) (List.mem_singleton_self _) (hget _) hbox
      (by
        intro hgrazes
        have hcut := hgrazes.1.eq_or
        norm_num at hcut)
  rw [List.map_singleton, List.map_singleton,
    Box.enclosing_singleton _ (by norm_num) (by norm_num)] at haround
  obtain rfl := Except.ok.inj haround
  refine ⟨own, cutoffs, hlist, huse, hkeep ?_ ?_ ?_⟩
  · intro hwest
    norm_num at hwest
  · exact ⟨_, List.mem_singleton_self _, nears_nearby⟩
  · rw [hgeometric]
    refine ⟨by simp [hlist], _, List.mem_singleton_self _, ?_⟩
    have hpi := Real.pi_gt_three
    have hpi' := Real.pi_lt_d2
    change Sphere.distance 10 45 10.2 45.15 ≤ 100 + (0 : ℝ)
    refine distance_nearby.trans ?_
    change Real.pi / 2 * (6371 * Real.pi / 180) * 0.25 ≤ _
    nlinarith

end Nearby

theorem indexed_of_epicentral_le {own : SiteCollection ℝ} {cutoffs : CutoffTable ℝ}
    {sources : List (Source ℝ)} {source : Source ℝ} {locations : List (Point ℝ)}
    {radius km : ℝ} {b around : Box ℝ} {s : Site ℝ} (hown : own.Built)
    (hsites : ∀ t ∈ own.toList, t.location.InRange)
    (huse : (build (some own) cutoffs kind).usesIndex = true)
    (hpoints : source.OfPoints locations radius) (hradius : 0 ≤ radius)
    (hlocations : ∀ p ∈ locations, p.InRange) (hsource : source ∈ sources)
    (hkm : cutoffs.get source.regionType none = .ok km) (hbox : source.box km = .ok b)
    (hgrazes : ¬(build (some own) cutoffs kind).frame.Grazes b s.lon)
    (hspelled : (∃ p ∈ locations, p.lon = -180) → (∃ p ∈ locations, p.lon = 180) →
      ∀ p ∈ locations, p.lon = -180 ∨ p.lon = 180)
    (haround : Box.enclosing (locations.map (·.lon)) (locations.map (·.lat)) = .ok around)
    (hpole : max |around.south| |around.north| < 90)
    (hquarter : around.lonMargin (km + radius) ≤ 90) (hs : s ∈ own.toList) {p : Point ℝ}
    (hp : p ∈ locations)
    (h : p.epicentral s.location * (Real.pi / 2) ≤
      (km + radius) * Sphere.degreesPerKm * Sphere.kmPerDegree) :
    (build (some own) cutoffs kind).Pairs sources none source s := by
  have hlon : ∀ p ∈ locations, -180 ≤ p.lon ∧ p.lon ≤ 180 :=
    fun p hp => ⟨(hlocations p hp).le_lon, (hlocations p hp).lon_le⟩
  obtain ⟨hkm0, other, hother, rfl⟩ := hpoints.box hlon hbox
  obtain rfl := Except.ok.inj (haround.symm.trans hother)
  have hencloses := Box.encloses_of_enclosing haround
  have hlimit : 0 ≤ km + radius := add_nonneg hkm0 hradius
  have hbetween := hencloses.lat p.lat (List.mem_map_of_mem hp)
  have hlat : |p.lat| ≤ max |around.south| |around.north| :=
    abs_le_max_abs_abs hbetween.1 hbetween.2
  have hrange := hsites s hs
  have hnears := Point.nears_of_epicentral_le hlimit hlat hpole
    (abs_le.mpr ⟨hrange.le_lat, hrange.lat_le⟩) hquarter h
  exact indexed_of_nears hown hsites huse hsource hkm hlimit hbox hlocations hencloses
    (fun _ hx => Sphere.cos_toRadians_nonneg hx) hgrazes hspelled hs hp hnears

theorem not_pairs_opposite (hown : own.Built) (hsites : ∀ t ∈ own.toList, t.location.InRange)
    (huse : (build (some own) cutoffs kind).usesIndex = true) {p : PointSource K}
    (hlocation : p.location.InRange) (hradius : 0 ≤ p.maxRuptureRadius) (hreach : 0 ≤ km)
    (hsource : p.toSource ∈ sources) (hkm : cutoffs.get p.toSource.regionType none = .ok km)
    (hmargin : 0 ≤ (Box.ofLocation p.location.lon p.location.lat).lonMargin
      (km + p.maxRuptureRadius))
    (hhalf : (Box.ofLocation p.location.lon p.location.lat).lonMargin
      (km + p.maxRuptureRadius) < 180)
    (hgrazes : ¬(build (some own) cutoffs kind).frame.Grazes
      ((Box.ofLocation p.location.lon p.location.lat).enlarged (km + p.maxRuptureRadius)) s.lon)
    (hopposite : s.lon = p.location.lon + 180) :
    ¬(build (some own) cutoffs kind).Pairs sources none p.toSource s := by
  have hlimit := add_nonneg hreach hradius
  have haround : (Box.ofLocation p.location.lon p.location.lat).InRange :=
    Box.inRange_iff.mpr
      ⟨⟨hlocation.le_lon, hlocation.lon_le⟩, ⟨hlocation.le_lon, hlocation.lon_le⟩, le_rfl⟩
  have hb := haround.enlarged hlimit hmargin hlocation.lat_le hlocation.le_lat
  have hwidth : (Box.ofLocation p.location.lon p.location.lat).width ≤ 180 := by simp
  rw [indexed_pairs_iff hown hsites huse hsource hkm (PointSource.box_eq p hreach) hb hgrazes,
    haround.enlarged_onArc_iff hlimit hmargin hlocation.lat_le hlocation.le_lat hwidth, hopposite]
  intro hpairs
  exact Box.not_near_opposite _ _ hhalf hpairs.2.2

/-- A site across the pole is reached on the sphere, and not by the box. -/
theorem prefilter_loses_across_pole :
    ∃ (own : SiteCollection ℝ) (cutoffs : CutoffTable ℝ), own.Built ∧
      own.toList = [⟨⟨0⟩, 90, 89.6, 0⟩] ∧ cutoffs.get "any" none = .ok 100 ∧
      (build (some own) cutoffs .scan).usesIndex = true ∧
      (∃ b, (PointSource.toSource ⟨"point", "any", ⟨-90, 89.6, 0⟩, [], 0, 0, 0⟩).box (100 : ℝ) =
        .ok b) ∧
      (build (some own) cutoffs .none).Pairs
        [PointSource.toSource ⟨"point", "any", ⟨-90, 89.6, 0⟩, [], 0, 0, 0⟩] none
        (PointSource.toSource ⟨"point", "any", ⟨-90, 89.6, 0⟩, [], 0, 0, 0⟩)
        ⟨⟨0⟩, 90, 89.6, 0⟩ ∧
      ¬(build (some own) cutoffs .scan).Pairs
        [PointSource.toSource ⟨"point", "any", ⟨-90, 89.6, 0⟩, [], 0, 0, 0⟩] none
        (PointSource.toSource ⟨"point", "any", ⟨-90, 89.6, 0⟩, [], 0, 0, 0⟩)
        ⟨⟨0⟩, 90, 89.6, 0⟩ := by
  obtain ⟨own, cutoffs, hown, hlist, huse, hget⟩ :=
    exists_usesIndex (α := ℝ) [⟨⟨0⟩, 90, 89.6, 0⟩] .scan 100 (fun _ _ => rfl) (by simp) (by simp)
      (by decide) (Scalar.isExtent_exact_iff.mpr (by norm_num))
  have hsites : ∀ t ∈ own.toList, t.location.InRange := by
    intro t ht
    rw [hlist, List.mem_singleton] at ht
    rw [ht]
    constructor <;> norm_num [Site.location]
  have hbox := PointSource.box_eq (⟨"point", "any", ⟨-90, 89.6, 0⟩, [], 0, 0, 0⟩ : PointSource ℝ)
    (show (0 : ℝ) ≤ 100 by norm_num)
  refine ⟨own, cutoffs, hown, hlist, hget _, huse, ⟨_, hbox⟩, ?_, ?_⟩
  · have hempty := (usesIndex_build_iff.mp huse).1
    rw [geometric_pairs_iff hown hempty (.point _) (List.mem_singleton_self _) (hget _) hbox]
    refine ⟨by simp [hlist], _, List.mem_singleton_self _, ?_⟩
    have hdistance : Sphere.distance (-90) (89.6 : ℝ) (-90 + 180) 89.6 = _ :=
      Sphere.distance_across_pole (-90) (by norm_num) (by norm_num)
    have hlon : (-90 : ℝ) + 180 = 90 := by norm_num
    rw [hlon] at hdistance
    have hpi := Real.pi_lt_d2
    change Sphere.distance (-90) 89.6 90 89.6 ≤ 100 + (0 : ℝ)
    rw [hdistance]
    linarith
  · have hmargin := Box.lonMargin_mem_of_near_pole (-90) (show (89 : ℝ) ≤ 89.6 by norm_num)
      (by norm_num) (show (0 : ℝ) ≤ 100 + 0 by norm_num) (by
        change (100 + 0) * (89932 / 10000000 : ℝ) ≤ _
        norm_num)
    refine not_pairs_opposite hown hsites huse ?_ le_rfl (by norm_num) (List.mem_singleton_self _)
      (hget _) hmargin.1 hmargin.2 ?_ (by norm_num)
    · constructor <;> norm_num
    · intro hgrazes
      have hcut := hgrazes.1.eq_or
      norm_num at hcut

end Screen

end HazardReach
