import HazardReach.Proofs.Cutoff.Entries
import HazardReach.Proofs.Proximity
import HazardReach.Proofs.Screen.Index
import HazardReach.Proofs.Screen.Search
import HazardReach.Proofs.Screen.Sequence
import HazardReach.Proofs.Sphere.Real

/-! Searching for the sites of a source first, and measuring them for its ruptures then. Whatever
lies within the cutoff of a rupture lies within that of its source, so that nothing a rupture is
close to has been lost before. -/
namespace HazardReach

namespace SiteCollection

variable {α : Type} {c d : SiteCollection α} {p q : Site α → Bool}
  {all found : Option (SiteCollection α)}

theorem Part.eq_of_part (hd : c.Part p (some d)) (hwhole : d.whole = c.whole)
    (hall : c.Part q all) (hallWhole : ∀ e ∈ all, e.whole = c.whole) (hfound : d.Part q found)
    (hfoundWhole : ∀ e ∈ found, e.whole = d.whole)
    (hpq : ∀ s ∈ c.toList, q s = true → p s = true) : found = all := by
  have htoList : found.map SiteCollection.toList = all.map SiteCollection.toList := by
    rw [hfound.toList, hall.toList, ← (present_eq_some_iff.mp hd.toList.symm).2, List.filter_filter]
    congr 1
    apply List.filter_congr
    intro s hs
    cases hq : q s with
    | true => rw [hpq s hs hq]; rfl
    | false => rfl
  cases found with
  | none =>
    cases all with
    | none => rfl
    | some e => contradiction
  | some e =>
    cases all with
    | none => contradiction
    | some e' =>
      rw [(hall.wellFormed e' rfl).eq_of_toList (hfound.wellFormed e rfl) _
        (Option.some.inj htoList)]
      rw [hallWhole e' rfl, hfoundWhole e rfl, hwhole]

theorem Part.eq_none (hnone : c.Part p none) (hall : c.Part q all)
    (hpq : ∀ s ∈ c.toList, q s = true → p s = true) : all = none := by
  cases all with
  | none => rfl
  | some e =>
    obtain ⟨hne, heq⟩ := present_eq_some_iff.mp hall.toList.symm
    obtain ⟨s, hs⟩ := List.exists_mem_of_ne_nil _ hne
    obtain ⟨hmem, hq⟩ := List.mem_filter.mp hs
    obtain ⟨d, hd, -⟩ := hnone.mem_iff.mpr ⟨hmem, hpq s hmem hq⟩
    contradiction

end SiteCollection

namespace Screen

section CloseSites

variable {α : Type} [Scalar α] {screen : Screen α} {own : SiteCollection α} {source : Source α}
  {found : Option (SiteCollection α)}

theorem closeSites_of_search (hown : screen.sites = some own)
    (h : screen.search source own = .ok found) : screen.closeSites source = .ok found := by
  rw [closeSites_eq, items_eq, Option.none_or, hown, List.filterMap_cons, List.filterMap_nil,
    answer_of_search hown h]
  cases found <;> rfl

end CloseSites

section Exact

variable {K : Type} [Field K] [LinearOrder K] [FloorRing K] [Trig K] {own : SiteCollection K}
  {cutoffs : CutoffTable K} {entries : List (String × Cutoff K)} {source : Source K}
  {ruptures : List (Rupture K)} {r : Rupture K} {radius km limit : K} {metric : Metric}

theorem isReached_of_measure [IsStrictOrderedRing K]
    (hdistance : ∀ p q : Point K, 0 ≤ p.epicentral q)
    (hhypot : ∀ a b : K, 0 ≤ a → a ≤ Trig.hypot a b) {p : Point K} {locations : List (Point K)}
    {measure : Point K → K} (hp : p ∈ locations)
    (hmeasure : measure = p.epicentral ∨ measure = p.hypocentral) (hradius : 0 ≤ radius)
    (hle : limit ≤ km) {s : Site K} (hs : measure s.location ≤ limit) :
    s.isReached locations (km + radius) = true := by
  have hground : p.epicentral s.location ≤ measure s.location := by
    rcases hmeasure with rfl | rfl
    · exact le_rfl
    · exact hhypot _ _ (hdistance p s.location)
  rw [Site.isReached_iff]
  refine ⟨p, hp, ?_⟩
  calc p.epicentral s.location ≤ measure s.location := hground
    _ ≤ limit := hs
    _ ≤ km := hle
    _ ≤ km + radius := le_add_of_nonneg_right hradius

/-- Measuring a rupture of a source at points on the sites close to the source gives what measuring
it on all sites gives, if the cutoff of the rupture is not above that of the source; and where no
site is close to the source, the rupture is far away. -/
theorem closest_on_closeSites [IsStrictOrderedRing K] (hown : own.Built)
    (htable : CutoffTable.ofEntries entries = .ok cutoffs) (hempty : cutoffs.isEmpty = false)
    (hdistance : ∀ p q : Point K, 0 ≤ p.epicentral q)
    (hhypot : ∀ a b : K, 0 ≤ a → a ≤ Trig.hypot a b)
    (hsource : source.Enumerates ruptures radius) (hradius : 0 ≤ radius)
    (hkm : cutoffs.get source.regionType none = .ok km) (hr : r ∈ ruptures)
    (hlimit : cutoffs.get source.regionType (some r.magnitude) = .ok limit) (hle : limit ≤ km)
    (hmetric : metric ∈ [Metric.rjb, .repi, .rrup, .rhypo]) :
    ∃ found outcome, (build (some own) cutoffs .none).closeSites source = .ok found ∧
      cutoffs.closest own r metric = .ok outcome ∧
      (found = none → outcome = .farAway) ∧
      ∀ close, found = some close → cutoffs.closest close r metric = .ok outcome := by
  obtain ⟨hregion, locations, hpoints, p, hp, hat⟩ := hsource.at_location hr
  obtain ⟨measure, hmeasure, hdistances⟩ := hat.exists_measure hmetric
  rw [← hregion] at hlimit
  have hreached (s : Site K) (hs : decide (measure s.location ≤ limit) = true) :
      s.isReached locations (km + radius) = true :=
    isReached_of_measure hdistance hhypot hp hmeasure hradius hle (of_decide_eq_true hs)
  have hreach : Source.checkReach km = .ok () :=
    Source.checkReach_ok_iff.mpr ((CutoffTable.keeps_of_ofEntries htable).get_nonneg hkm)
  have hsites := hpoints.sitesWithin_eq hreach (List.ne_nil_of_mem hp) hown.wellFormed
  obtain ⟨found, hfound, hpart⟩ := hown.wellFormed.search_filter (Error.badSites (α := K))
    (·.isReached locations (km + radius))
  have hsearch : (build (some own) cutoffs .none).search source own = .ok found := by
    rw [search_eq_sitesWithin (index_build_none own cutoffs) hempty hkm, hsites, hfound]
  obtain ⟨all, hall, hallWhole, hclosest⟩ :=
    CutoffTable.closest_eq hempty hlimit hown.wellFormed (hdistances own)
  refine ⟨found, .ofFound measure all, closeSites_of_search rfl hsearch, hclosest, ?_, ?_⟩
  · rintro rfl
    rw [hpart.eq_none hall fun s _ => hreached s]
    rfl
  · rintro close rfl
    have hwhole := (hown.wellFormed.search_within hfound).1.whole
    obtain ⟨near, hnear, hnearWhole, heq⟩ :=
      CutoffTable.closest_eq hempty hlimit (hpart.wellFormed close rfl) (hdistances close)
    rw [heq, hpart.eq_of_part hwhole hall hallWhole hnear hnearWhole fun s _ => hreached s]

end Exact

/-- From 100 km at magnitude 5 to 300 km at magnitude 7. -/
noncomputable def sloping : Curve ℝ := ⟨(5, 100), [(7, 300)]⟩

private theorem exists_sloping : ∃ cutoffs : CutoffTable ℝ,
    CutoffTable.ofEntries [(CutoffTable.defaultRegion, .byMagnitude [(5, 100), (7, 300)])] =
      .ok cutoffs ∧ cutoffs.isEmpty = false ∧ cutoffs.get "any" none = .ok 300 ∧
      cutoffs.get "any" (some 6) = .ok 200 := by
  have hcheck : Cutoff.check (.byMagnitude [((5 : ℝ), (100 : ℝ)), (7, 300)]) =
      .ok (.byMagnitude sloping.knots) := by
    apply Cutoff.check_byMagnitude (by simp)
    · intro p hp
      rw [Cutoff.validPair_iff]
      simp only [List.mem_cons, List.not_mem_nil, or_false] at hp
      rcases hp with rfl | rfl
      · exact ⟨rfl, rfl, by norm_num⟩
      · exact ⟨rfl, rfl, by norm_num⟩
    · apply List.mergeSort_of_pairwise
      refine List.pairwise_cons.mpr ⟨?_, List.pairwise_singleton _ _⟩
      intro q hq
      rw [List.mem_singleton.mp hq]
      exact decide_eq_true (by norm_num)
    · have hne : ((5 : ℝ) == 7) = false := beq_false_of_ne (by norm_num)
      change (if ((5 : ℝ) == 7) = true then _ else _) = _
      rw [hne]
      rfl
  have hcurved := CutoffTable.curved_empty.insert CutoffTable.defaultRegion
    (.byMagnitude sloping.knots)
  have hresolve : (CutoffTable.empty.insert CutoffTable.defaultRegion
      (.byMagnitude sloping.knots)).resolve? "any" =
        some (CutoffTable.defaultRegion, .byMagnitude sloping.knots) := by
    rfl
  refine ⟨CutoffTable.empty.insert CutoffTable.defaultRegion (.byMagnitude sloping.knots), ?_, ?_,
    ?_, ?_⟩
  · rw [CutoffTable.ofEntries, CutoffTable.insertAll_cons hcheck, CutoffTable.insertAll]
  · exact Std.TreeMap.isEmpty_insert
  · exact CutoffTable.get_of_gives hcurved hresolve
      (@Cutoff.Gives.largest ℝ _ sloping.knots (7, 300) rfl)
  · rw [CutoffTable.get_of_gives hcurved hresolve .onCurve]
    change Except.ok ((100 : ℝ) + (6 - 5) * (300 - 100) / (7 - 5)) = .ok 200
    norm_num

/-- A site at the source and one half way round the globe, and a rupture whose cutoff is narrower
than that of its source. -/
theorem closest_on_closeSites_near :
    ∃ (own : SiteCollection ℝ) (cutoffs : CutoffTable ℝ) (r : Rupture ℝ)
      (found : Option (SiteCollection ℝ)) (outcome : Proximity ℝ),
      own.toList = [⟨⟨0⟩, 0, 0, 0⟩, ⟨⟨1⟩, 180, 0, 0⟩] ∧
      cutoffs.get "any" none = .ok 300 ∧ cutoffs.get "any" (some r.magnitude) = .ok 200 ∧
      r ∈ PointSource.ruptures ⟨"point", "any", ⟨0, 0, 10⟩, [6], 0, 0, 25⟩ ∧
      (build (some own) cutoffs .none).closeSites
        (PointSource.toSource ⟨"point", "any", ⟨0, 0, 10⟩, [6], 0, 0, 25⟩) = .ok found ∧
      cutoffs.closest own r .rrup = .ok outcome ∧
      ∀ close, found = some close → cutoffs.closest close r .rrup = .ok outcome := by
  have hnodup : ([(⟨⟨0⟩, 0, 0, 0⟩ : Site ℝ), ⟨⟨1⟩, 180, 0, 0⟩].map (·.id)).Nodup := by decide
  obtain ⟨positions, hown⟩ := SiteCollection.ofSites_ok 0 (fun _ _ => rfl) hnodup
  obtain ⟨cutoffs, htable, hempty, hkm, hlimit⟩ := exists_sloping
  have hr : (⟨6, 0, "any", ⟨0, 0, 10⟩, PointSurface.toSurface ⟨⟨0, 0, 10⟩, 0⟩, none⟩ : Rupture ℝ) ∈
    PointSource.ruptures ⟨"point", "any", ⟨0, 0, 10⟩, [6], 0, 0, 25⟩ := List.mem_singleton_self _
  obtain ⟨found, outcome, hfound, houtcome, -, hclose⟩ := closest_on_closeSites (.sites hown) htable
    hempty (fun p q => Sphere.distance_nonneg _ _ _ _) (fun a b _ => le_hypot a b)
    (.point ⟨"point", "any", ⟨0, 0, 10⟩, [6], 0, 0, 25⟩) (show (0 : ℝ) ≤ 25 by norm_num) hkm hr
    hlimit (by norm_num)
    (show Metric.rrup ∈ [Metric.rjb, .repi, .rrup, .rhypo] by decide)
  exact ⟨_, cutoffs, _, found, outcome, rfl, hkm, hlimit, hr, hfound, houtcome, hclose⟩

end Screen

end HazardReach
