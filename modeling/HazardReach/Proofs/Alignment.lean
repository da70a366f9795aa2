import HazardReach.Proofs.Closest

/-! Distances that are not one for each site. A surface may give any number of distances. The search
for what is close to a rupture counts them only where it narrows a collection: not where the table
sets no limit, and not where no distance is in reach. Searching the projection of the rupture always
counts them. -/
namespace HazardReach

variable {α : Type} [Scalar α]

namespace CutoffTable

variable {t : CutoffTable α} {c : SiteCollection α} {r : Rupture α} {distances : List α}
  {outcome : Except (Error α) (Proximity α)}

theorem Searched.error_iff (h : t.Searched c r distances outcome)
    (hlength : distances.length ≠ c.size) :
    (∃ e, outcome = .error e) ↔ t.isEmpty = false ∧
      ∀ km, t.get r.regionType (some r.magnitude) = .ok km → ∃ d ∈ distances, d ≤ km := by
  cases h with
  | unlimited hempty => simp [hempty]
  | @unanswered e hempty hget => simp [hempty, hget]
  | @far km hempty hkm hfar => simpa [hempty, hkm] using hfar
  | @misaligned km hempty hkm hnear => simpa [hempty, hkm] using hnear
  | near hempty hkm hnear haligned => exact absurd haligned hlength

theorem Searched.farAway_iff (h : t.Searched c r distances outcome) :
    outcome = .ok .farAway ↔ t.isEmpty = false ∧
      ∃ km, t.get r.regionType (some r.magnitude) = .ok km ∧ ∀ d ∈ distances, ¬d ≤ km := by
  cases h with
  | unlimited hempty => simp [hempty]
  | @unanswered e hempty hget => simp [hget]
  | @far km hempty hkm hfar => simpa [hempty, hkm] using hfar
  | @misaligned km hempty hkm hnear => simpa [hempty, hkm] using hnear
  | @near km close hempty hkm hnear => simpa [hempty, hkm] using hnear

theorem Searched.compared_iff (h : t.Searched c r distances (.ok .farAway)) {km : α}
    (hkm : t.get r.regionType (some r.magnitude) = .ok km) :
    (∀ i < c.size, ∃ d, distances[i]? = some d ∧ ¬d ≤ km) ↔ c.size ≤ distances.length := by
  obtain ⟨-, limit, hlimit, hfar⟩ := h.farAway_iff.mp rfl
  obtain rfl : km = limit := Except.ok.inj (hkm.symm.trans hlimit)
  constructor
  · intro hcompared
    by_contra hshort
    obtain ⟨d, hd, -⟩ := hcompared distances.length (not_le.mp hshort)
    rw [List.getElem?_eq_none le_rfl] at hd
    contradiction
  · intro hlong i hi
    have hd := List.getElem?_eq_getElem (hi.trans_le hlong)
    exact ⟨_, hd, hfar _ (List.mem_of_getElem? hd)⟩

theorem Searched.length_iff {close : SiteCollection α} {found : List α}
    (h : t.Searched c r distances (.ok (.close close found))) (hc : c.Built) :
    found.length = close.size ↔ t.isEmpty = false ∨ distances.length = c.size := by
  cases h with
  | unlimited hempty => simp [hempty]
  | near hempty hkm hnear hlength hkeep =>
    have hclosest := hc.closest_of_keep hlength hnear hkeep
    rw [hclosest.length, hclosest.built.wellFormed.length_toList]
    simp [hempty]

end CutoffTable

theorem Rupture.sitesWithin_of_length_ne {r : Rupture α} {c : SiteCollection α}
    (hne : c.isEmpty = false) (hlength : (r.surface.rjb c.mesh).length ≠ c.size) (km : α) :
    r.sitesWithin km c =
      .error (.maskLength (r.surface.rjb c.mesh).length c.size) := by
  have hmask : (withinReach km (r.surface.rjb c.mesh)).length = (r.surface.rjb c.mesh).length :=
    List.length_map _
  have hkeep := SiteCollection.keep_of_length_ne (hmask.trans_ne hlength)
  rw [hmask] at hkeep
  unfold Rupture.sitesWithin
  rw [hne]
  exact hkeep

namespace CutoffTable

/-- Distances that are not one for each site give an error just when the table has entries and
either does not answer for the rupture or sets a limit that some distance is within. So the sites
and the distances that are found are equally many unless the table is empty, and a rupture that is
found to be far away has been compared with every site only if there were at least as many
distances. Searching the projection of the rupture gives an error in any case. -/
theorem closest_of_misaligned [Trig α] {t : CutoffTable α} {c : SiteCollection α} {r : Rupture α}
    {metric : Metric} {distances : List α} (hc : c.Built)
    (hdistances : r.distances c.mesh metric = .ok distances) :
    (distances.length ≠ c.size → ((∃ e, t.closest c r metric = .error e) ↔ t.isEmpty = false ∧
      ∀ km, t.get r.regionType (some r.magnitude) = .ok km → ∃ d ∈ distances, d ≤ km)) ∧
    (∀ close found, t.closest c r metric = .ok (.close close found) →
      (found.length = close.size ↔ t.isEmpty = false ∨ distances.length = c.size)) ∧
    (t.closest c r metric = .ok .farAway ↔ t.isEmpty = false ∧
      ∃ km, t.get r.regionType (some r.magnitude) = .ok km ∧ ∀ d ∈ distances, ¬d ≤ km) ∧
    (t.closest c r metric = .ok .farAway → ∀ km,
      t.get r.regionType (some r.magnitude) = .ok km →
        ((∀ i < c.size, ∃ d, distances[i]? = some d ∧ ¬d ≤ km) ↔ c.size ≤ distances.length)) ∧
    (c.isEmpty = false → (r.surface.rjb c.mesh).length ≠ c.size → ∀ km,
      r.sitesWithin km c = .error (.maskLength (r.surface.rjb c.mesh).length c.size)) := by
  have hsearched := closest_searched (t := t) hdistances
  refine ⟨hsearched.error_iff, ?_, hsearched.farAway_iff, ?_, Rupture.sitesWithin_of_length_ne⟩
  · intro close found hclosest
    rw [hclosest] at hsearched
    exact hsearched.length_iff hc
  · intro hclosest km hkm
    rw [hclosest] at hsearched
    exact hsearched.compared_iff hkm

/-- A surface that gives the longitudes of a mesh for its distances, however many they are. -/
def Surface.byLongitude : Surface Float :=
  { PointSurface.toSurface ⟨⟨0, 0, 10⟩, 0⟩ with rrup := fun mesh => .ok mesh.lons }

private theorem exists_short (lon lon' : Float) (hlon : Scalar.isFinite lon = true)
    (hlon' : Scalar.isFinite lon' = true) :
    ∃ (c : SiteCollection Float) (r : Rupture Float), c.Built ∧ c.lons = [lon, lon'] ∧
      c.size = 2 ∧ r.distances c.mesh .rrup = .ok [lon] := by
  have hfinite : ∀ s ∈ [(⟨⟨7⟩, lon, 45, 0⟩ : Site Float), ⟨⟨3⟩, lon', 46, 0⟩],
      s.isFinite = true := by
    simp only [List.forall_mem_cons, Site.isFinite, hlon, hlon']
    decide
  obtain ⟨positions, hall⟩ := SiteCollection.ofSites_ok 0 hfinite
    (show [(⟨7⟩ : SiteId), ⟨3⟩].Nodup by decide)
  exact ⟨_, ⟨6.5, 0, "any", ⟨0, 0, 10⟩, Surface.byLongitude.truncated, none⟩, .sites hall, rfl, rfl,
    rfl⟩

theorem closest_of_misaligned_near : ∃ (c : SiteCollection Float) (r : Rupture Float)
    (t : CutoffTable Float), c.lons = [20, 150] ∧ r.distances c.mesh .rrup = .ok [20] ∧
    fixed 100 = .ok t ∧ ∃ e, t.closest c r .rrup = .error e := by
  obtain ⟨c, r, hc, hlons, hsize, hdistances⟩ := exists_short 20 150 (by decide) (by decide)
  obtain ⟨t, ht, hempty, hget⟩ := exists_fixed (show Scalar.isExtent (100 : Float) = true by decide)
  have hlength : [(20 : Float)].length ≠ c.size := by
    rw [hsize]
    decide
  have hnear : ∀ km, t.get r.regionType (some r.magnitude) = .ok km → ∃ d ∈ [20], d ≤ km := by
    intro km hkm
    rw [hget] at hkm
    rw [← Except.ok.inj hkm]
    exact ⟨20, List.mem_singleton_self _, by decide⟩
  have herror := (closest_of_misaligned (t := t) hc hdistances).1 hlength
  exact ⟨c, r, t, hlons, hdistances, ht, herror.mpr ⟨hempty, hnear⟩⟩

/-- One distance for two sites: without a limit it is given out with both sites, and where it is out
of reach the second site, which is not, goes unnoticed. -/
theorem closest_of_short_ne_error : ∃ (c : SiteCollection Float) (r : Rupture Float)
    (t : CutoffTable Float), c.Built ∧ c.lons = [150, 20] ∧ c.size = 2 ∧
    r.distances c.mesh .rrup = .ok [150] ∧ fixed 100 = .ok t ∧
    empty.closest c r .rrup = .ok (.close c [150]) ∧ t.closest c r .rrup = .ok .farAway := by
  obtain ⟨c, r, hc, hlons, hsize, hdistances⟩ := exists_short 150 20 (by decide) (by decide)
  obtain ⟨t, ht, hempty, hget⟩ := exists_fixed (show Scalar.isExtent (100 : Float) = true by decide)
  have hfar : ∀ d ∈ [(150 : Float)], ¬d ≤ 100 := by decide
  exact ⟨c, r, t, hc, hlons, hsize, hdistances, ht,
    closest_of_isEmpty hdistances Std.TreeMap.isEmpty_emptyc,
    closest_of_far hdistances hempty (hget _ _) hfar⟩

end CutoffTable

end HazardReach
