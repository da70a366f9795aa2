import HazardReach.Proofs.Source.Points
import HazardReach.Proximity

/-! Ruptures of sources that start at points, measured. Each distance is taken for one site at a
time, so that narrowing a collection first does not change what is measured, and what is close to
the rupture is the part of the collection within the cutoff. -/
namespace HazardReach

variable {α : Type} [Scalar α] [Trig α]

/-- A source that starts at points, with its ruptures and how far they reach. -/
inductive Source.Enumerates : Source α → (ruptures : List (Rupture α)) → (radius : α) → Prop where
  | point (s : PointSource α) : Enumerates s.toSource s.ruptures s.maxRuptureRadius
  | multi (s : MultiPointSource α) : Enumerates s.toSource s.ruptures s.maxRuptureRadius

namespace Rupture

/-- The rupture lies in one point. -/
structure At (r : Rupture α) (p : Point α) : Prop where
  hypocenter : r.hypocenter = p
  surface : ∃ strike, r.surface = PointSurface.toSurface ⟨p, strike⟩

theorem hypocentrals_mesh (p : Point α) (c : SiteCollection α) :
    p.hypocentrals c.mesh = c.toList.map fun s => p.hypocentral s.location := by
  unfold Point.hypocentrals SiteCollection.mesh
  rw [Mesh.points_ofPoints, List.map_map]
  rfl

theorem At.exists_measure {r : Rupture α} {p : Point α} (h : r.At p) {metric : Metric}
    (hmetric : metric ∈ [Metric.rjb, .repi, .rrup, .rhypo]) :
    ∃ measure : Point α → α, (measure = p.epicentral ∨ measure = p.hypocentral) ∧
      ∀ c : SiteCollection α,
        r.distances c.mesh metric = .ok (c.toList.map fun s => measure s.location) := by
  obtain ⟨strike, hsurface⟩ := h.surface
  simp only [List.mem_cons, List.not_mem_nil, or_false] at hmetric
  rcases hmetric with rfl | rfl | rfl | rfl
  · refine ⟨p.epicentral, .inl rfl, ?_⟩
    intro c
    rw [distances, hsurface, ← epicentrals_mesh]
    rfl
  · refine ⟨p.epicentral, .inl rfl, ?_⟩
    intro c
    rw [distances, h.hypocenter, epicentrals_mesh]
  · refine ⟨p.hypocentral, .inr rfl, ?_⟩
    intro c
    rw [distances, hsurface, ← hypocentrals_mesh]
    rfl
  · refine ⟨p.hypocentral, .inr rfl, ?_⟩
    intro c
    rw [distances, h.hypocenter, hypocentrals_mesh]

end Rupture

theorem PointSource.at_of_mem_ruptures {s : PointSource α} {r : Rupture α} (h : r ∈ s.ruptures) :
    r.At s.location ∧ r.regionType = s.regionType := by
  obtain ⟨magnitude, -, rfl⟩ := List.mem_map.mp h
  exact ⟨⟨rfl, s.strike, rfl⟩, rfl⟩

theorem Source.Enumerates.at_location {source : Source α} {ruptures : List (Rupture α)} {radius : α}
    (h : source.Enumerates ruptures radius) {r : Rupture α} (hr : r ∈ ruptures) :
    r.regionType = source.regionType ∧
      ∃ locations, source.OfPoints locations radius ∧ ∃ p ∈ locations, r.At p := by
  cases h with
  | point s =>
    obtain ⟨hat, hregion⟩ := PointSource.at_of_mem_ruptures hr
    exact ⟨hregion, _, .point s, _, List.mem_singleton_self _, hat⟩
  | multi s =>
    obtain ⟨point, hpoint, hr⟩ := List.mem_flatMap.mp hr
    obtain ⟨⟨location, i⟩, hlocation, rfl⟩ := List.mem_map.mp hpoint
    obtain ⟨hat, hregion⟩ := PointSource.at_of_mem_ruptures hr
    exact ⟨hregion, _, .multi s, location, (List.mem_zipIdx' hlocation).2 ▸ List.getElem_mem _, hat⟩

omit [Trig α] in
theorem any_withinReach_iff {km : α} {distances : List α} :
    (withinReach km distances).any id = true ↔ ∃ d ∈ distances, d ≤ km := by
  simp [withinReach]

omit [Trig α] in
theorem any_withinReach_eq_false {km : α} {distances : List α} (h : ∀ d ∈ distances, ¬d ≤ km) :
    (withinReach km distances).any id = false := by
  rw [Bool.eq_false_iff, ne_eq, any_withinReach_iff]
  rintro ⟨d, hd, hle⟩
  exact h d hd hle

namespace Proximity

/-- The outcome that finds the given sites, with their distances. -/
def ofFound (measure : Point α → α) : Option (SiteCollection α) → Proximity α
  | none => .farAway
  | some d => .close d (d.toList.map fun s => measure s.location)

end Proximity

variable {t : CutoffTable α} {c : SiteCollection α} {r : Rupture α} {metric : Metric} {km : α}
  {measure : Point α → α}

namespace CutoffTable

section Outcomes

variable {distances : List α} {e : Error α}

theorem closest_of_distances_error (h : r.distances c.mesh metric = .error e) :
    t.closest c r metric = .error e := by
  unfold closest
  rw [h]
  rfl

theorem closest_of_isEmpty (hdistances : r.distances c.mesh metric = .ok distances)
    (hempty : t.isEmpty = true) : t.closest c r metric = .ok (.close c distances) := by
  unfold closest
  rw [hdistances, hempty]
  rfl

variable (hdistances : r.distances c.mesh metric = .ok distances) (hempty : t.isEmpty = false)

include hdistances hempty

theorem closest_of_get_error (hget : t.get r.regionType (some r.magnitude) = .error e) :
    t.closest c r metric = .error e := by
  unfold closest
  rw [hdistances, hempty, hget]
  rfl

variable (hkm : t.get r.regionType (some r.magnitude) = .ok km)

include hkm

theorem closest_of_far (hfar : ∀ d ∈ distances, ¬d ≤ km) :
    t.closest c r metric = .ok .farAway := by
  have hany := any_withinReach_eq_false hfar
  unfold closest
  rw [hdistances, hempty, hkm]
  simp only [bind, Except.bind, Bool.false_eq_true, if_false, hany]
  rfl

theorem closest_of_keep {close : SiteCollection α} (hnear : ∃ d ∈ distances, d ≤ km)
    (hkeep : c.keep (withinReach km distances) = .ok (some close)) :
    t.closest c r metric =
      .ok (.close close (masked distances (withinReach km distances))) := by
  unfold closest
  rw [hdistances, hempty, hkm]
  simp only [bind, Except.bind, Bool.false_eq_true, if_false, any_withinReach_iff.mpr hnear, hkeep]
  rfl

theorem closest_of_length_ne (hnear : ∃ d ∈ distances, d ≤ km)
    (hlength : distances.length ≠ c.size) :
    t.closest c r metric = .error (.badSites (.maskLength distances.length c.size)) := by
  have hmask : (withinReach km distances).length = distances.length := List.length_map _
  have hkeep := SiteCollection.keep_of_length_ne (hmask.trans_ne hlength)
  rw [hmask] at hkeep
  unfold closest
  rw [hdistances, hempty, hkm]
  simp only [bind, Except.bind, Bool.false_eq_true, if_false, any_withinReach_iff.mpr hnear, hkeep]
  rfl

end Outcomes

/-- What a search makes of distances, however many there are. How many is looked at only when one of
them is in reach. -/
inductive Searched (t : CutoffTable α) (c : SiteCollection α) (r : Rupture α)
    (distances : List α) : Except (Error α) (Proximity α) → Prop where
  | unlimited (hempty : t.isEmpty = true) : Searched t c r distances (.ok (.close c distances))
  | unanswered {e : Error α} (hempty : t.isEmpty = false)
    (hget : t.get r.regionType (some r.magnitude) = .error e) : Searched t c r distances (.error e)
  | far {km : α} (hempty : t.isEmpty = false)
    (hkm : t.get r.regionType (some r.magnitude) = .ok km) (hfar : ∀ d ∈ distances, ¬d ≤ km) :
    Searched t c r distances (.ok .farAway)
  | misaligned {km : α} (hempty : t.isEmpty = false)
    (hkm : t.get r.regionType (some r.magnitude) = .ok km) (hnear : ∃ d ∈ distances, d ≤ km)
    (hlength : distances.length ≠ c.size) :
    Searched t c r distances (.error (.badSites (.maskLength distances.length c.size)))
  | near {km : α} {close : SiteCollection α} (hempty : t.isEmpty = false)
    (hkm : t.get r.regionType (some r.magnitude) = .ok km) (hnear : ∃ d ∈ distances, d ≤ km)
    (hlength : distances.length = c.size)
    (hkeep : c.keep (withinReach km distances) = .ok (some close)) :
    Searched t c r distances (.ok (.close close (masked distances (withinReach km distances))))

theorem closest_searched {distances : List α}
    (hdistances : r.distances c.mesh metric = .ok distances) :
    t.Searched c r distances (t.closest c r metric) := by
  cases hempty : t.isEmpty with
  | true =>
    rw [closest_of_isEmpty hdistances hempty]
    exact .unlimited hempty
  | false =>
    cases hget : t.get r.regionType (some r.magnitude) with
    | error e =>
      rw [closest_of_get_error hdistances hempty hget]
      exact .unanswered hempty hget
    | ok km =>
      by_cases hnear : ∃ d ∈ distances, d ≤ km
      · by_cases hlength : distances.length = c.size
        · have hmask : (withinReach km distances).length = c.size :=
            (List.length_map _).trans hlength
          obtain ⟨close, hkeep⟩ :=
            SiteCollection.exists_keep hmask (any_withinReach_iff.mpr hnear)
          rw [closest_of_keep hdistances hempty hget hnear hkeep]
          exact .near hempty hget hnear hlength hkeep
        · rw [closest_of_length_ne hdistances hempty hget hnear hlength]
          exact .misaligned hempty hget hnear hlength
      · have hfar : ∀ d ∈ distances, ¬d ≤ km := fun d hd hle => hnear ⟨d, hd, hle⟩
        rw [closest_of_far hdistances hempty hget hfar]
        exact .far hempty hget hfar

theorem closest_eq (hempty : t.isEmpty = false)
    (hkm : t.get r.regionType (some r.magnitude) = .ok km) (hc : c.WellFormed)
    (hmeasure : r.distances c.mesh metric = .ok (c.toList.map fun s => measure s.location)) :
    ∃ found, c.Part (fun s => decide (measure s.location ≤ km)) found ∧
      (∀ d ∈ found, d.whole = c.whole) ∧
      t.closest c r metric = .ok (Proximity.ofFound measure found) := by
  have hmask : withinReach km (c.toList.map fun s => measure s.location) =
      c.toList.map fun s => decide (measure s.location ≤ km) := by
    rw [withinReach, List.map_map]
    rfl
  by_cases hnear : ∃ d ∈ c.toList.map fun s => measure s.location, d ≤ km
  · have hne : c.toList ≠ [] := by
      obtain ⟨d, hd, -⟩ := hnear
      obtain ⟨s, hs, -⟩ := List.mem_map.mp hd
      exact List.ne_nil_of_mem hs
    have hlength : (withinReach km (c.toList.map fun s => measure s.location)).length = c.size := by
      rw [hmask, List.length_map, hc.length_toList]
    obtain ⟨close, hkeep⟩ := SiteCollection.exists_keep hlength (any_withinReach_iff.mpr hnear)
    have hclosest := closest_of_keep hmeasure hempty hkm hnear hkeep
    rw [hmask] at hkeep hclosest
    refine ⟨some close, hc.part_of_keep (hc.isEmpty_eq_false hne) hkeep, ?_, ?_⟩
    · intro d hd
      rw [← Option.some.inj hd]
      exact SiteCollection.whole_of_keep hkeep
    · rw [hclosest, masked_map_left, ← hc.toList_of_keep hkeep]
      rfl
  · refine ⟨none, ⟨?_, by simp⟩, by simp, ?_⟩
    · have hfilter : c.toList.filter (fun s => decide (measure s.location ≤ km)) = [] := by
        rw [List.filter_eq_nil_iff]
        intro s hs hle
        exact hnear ⟨_, List.mem_map_of_mem hs, of_decide_eq_true hle⟩
      rw [hfilter]
      rfl
    · exact closest_of_far hmeasure hempty hkm fun d hd hle => hnear ⟨d, hd, hle⟩

end CutoffTable

end HazardReach
