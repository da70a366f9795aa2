import HazardReach.Proofs.Cutoff.Entries
import HazardReach.Proofs.Cutoff.Table
import HazardReach.Proofs.Proximity
import HazardReach.Proofs.Surface

/-! What is close to a rupture, whatever measures it. Sites and distances are two lists, narrowed
one after the other by a mask that is made of the distances. With one distance for each site both
are the two sides of one list of pairs, and what is left of them stays aligned. -/
namespace HazardReach

variable {α : Type} [Scalar α]

theorem masked_map_snd {β γ : Type} {xs : List β} {ys : List γ} (hlength : ys.length = xs.length)
    (p : γ → Bool) : masked ys (ys.map p) = ((xs.zip ys).filter fun q => p q.2).map (·.2) := by
  have hsnd : (xs.zip ys).map (·.2) = ys := List.map_snd_zip hlength.le
  calc masked ys (ys.map p) = ys.filter p := masked_map ys p
    _ = ((xs.zip ys).map (·.2)).filter p := by rw [hsnd]
    _ = ((xs.zip ys).filter fun q => p q.2).map (·.2) := List.filter_map

namespace SiteCollection

/-- The sites of a collection at most `km` away, in their order, each next to its distance. -/
structure Closest (c : SiteCollection α) (distances : List α) (km : α) (close : SiteCollection α)
    (found : List α) : Prop where
  built : close.Built
  whole : close.whole = c.whole
  ne_nil : close.toList ≠ []
  length : found.length = close.toList.length
  zip : close.toList.zip found = (c.toList.zip distances).filter fun p => decide (p.2 ≤ km)

section Closest

variable {c close : SiteCollection α} {distances found : List α} {km : α}

theorem Closest.toList_eq (h : c.Closest distances km close found) :
    close.toList = ((c.toList.zip distances).filter fun p => decide (p.2 ≤ km)).map (·.1) := by
  rw [← h.zip]
  exact (List.map_fst_zip h.length.ge).symm

theorem Closest.found_eq (h : c.Closest distances km close found) :
    found = ((c.toList.zip distances).filter fun p => decide (p.2 ≤ km)).map (·.2) := by
  rw [← h.zip]
  exact (List.map_snd_zip h.length.le).symm

theorem Built.closest_of_keep (hc : c.Built) (hlength : distances.length = c.size)
    (hnear : ∃ d ∈ distances, d ≤ km)
    (hkeep : c.keep (withinReach km distances) = .ok (some close)) :
    c.Closest distances km close (masked distances (withinReach km distances)) := by
  rw [← hc.wellFormed.length_toList] at hlength
  have hsites : close.toList =
      ((c.toList.zip distances).filter fun p => decide (p.2 ≤ km)).map (·.1) := by
    rw [hc.wellFormed.toList_of_keep hkeep, withinReach, masked_map_zip]
  have hdistances : masked distances (withinReach km distances) =
      ((c.toList.zip distances).filter fun p => decide (p.2 ≤ km)).map (·.2) :=
    masked_map_snd hlength _
  refine ⟨hc.keep hkeep, whole_of_keep hkeep, ?_, ?_, ?_⟩
  · rw [hc.wellFormed.toList_of_keep hkeep]
    apply masked_ne_nil _ (any_withinReach_iff.mpr hnear)
    rw [withinReach, List.length_map, hlength]
  · rw [hsites, hdistances, List.length_map, List.length_map]
  · rw [hsites, hdistances]
    exact (List.zip_of_prod rfl rfl).symm

end Closest

end SiteCollection

variable [Trig α]

/-- The sites of an outcome, if there are any. -/
def Proximity.sites? : Proximity α → Option (SiteCollection α)
  | .farAway => none
  | .close sites _ => some sites

section Outcome

variable {t : CutoffTable α} {c : SiteCollection α} {r : Rupture α} {metric : Metric} {km : α}
  {distances : List α}

theorem CutoffTable.closest_cases (hdistances : r.distances c.mesh metric = .ok distances)
    (hempty : t.isEmpty = false) (hkm : t.get r.regionType (some r.magnitude) = .ok km)
    (hc : c.Built) (hlength : distances.length = c.size) :
    ((∀ d ∈ distances, ¬d ≤ km) ∧ t.closest c r metric = .ok .farAway) ∨
      ((∃ d ∈ distances, d ≤ km) ∧ ∃ close found,
        t.closest c r metric = .ok (.close close found) ∧
        c.keep (withinReach km distances) = .ok (some close) ∧
        c.Closest distances km close found) := by
  have hsearched := closest_searched (t := t) hdistances
  generalize t.closest c r metric = outcome at hsearched ⊢
  cases hsearched with
  | unlimited hlimit =>
    rw [hempty] at hlimit
    contradiction
  | unanswered _ hget =>
    rw [hkm] at hget
    contradiction
  | @far limit _ hget hfar =>
    obtain rfl : km = limit := Except.ok.inj (hkm.symm.trans hget)
    exact .inl ⟨hfar, rfl⟩
  | misaligned _ _ _ hne => exact absurd hlength hne
  | @near limit close _ hget hnear _ hkeep =>
    obtain rfl : km = limit := Except.ok.inj (hkm.symm.trans hget)
    exact .inr ⟨hnear, close, _, rfl, hkeep, hc.closest_of_keep hlength hnear hkeep⟩

theorem CutoffTable.Keeps.closest_error_iff [LawfulScalar α] {entries : List (String × Cutoff α)}
    (ht : t.Keeps entries) (hlength : r.MeasuresEach c metric) :
    (∃ e, t.closest c r metric = .error e) ↔
      (∃ e, r.distances c.mesh metric = .error e) ∨
        (t.isEmpty = false ∧ t.contains r.regionType = false ∧
          t.contains defaultRegion = false) := by
  rw [← ht.get_error_iff r.regionType (some r.magnitude)]
  cases hdistances : r.distances c.mesh metric with
  | error e =>
    rw [closest_of_distances_error hdistances]
    exact ⟨fun _ => .inl ⟨e, rfl⟩, fun _ => ⟨e, rfl⟩⟩
  | ok distances =>
    have hsearched := closest_searched (t := t) hdistances
    generalize t.closest c r metric = outcome at hsearched ⊢
    cases hsearched with
    | unlimited hempty => simp [hempty]
    | @unanswered e hempty hget => simp [hempty, hget]
    | far hempty hkm hfar => simp [hkm]
    | misaligned _ _ _ hne => exact absurd (hlength distances hdistances) hne
    | near hempty hkm hnear haligned hkeep => simp [hkm]

theorem CutoffTable.exists_fixed_closest (hc : c.Built) (hlength : r.MeasuresEach c .rjb)
    (hkm : Scalar.isExtent km = true) : ∃ u outcome, fixed km = .ok u ∧
      u.closest c r .rjb = .ok outcome ∧ r.sitesWithin km c = .ok outcome.sites? := by
  obtain ⟨u, hu, hempty, hget⟩ := exists_fixed hkm
  have hdistances : r.distances c.mesh .rjb = .ok (r.surface.rjb c.mesh) := rfl
  have hsize := hlength _ hdistances
  obtain ⟨hfar, hclosest⟩ | ⟨⟨d, hd, -⟩, close, found, hclosest, hkeep, -⟩ :=
    closest_cases hdistances hempty (hget _ _) hc hsize
  · refine ⟨u, .farAway, hu, hclosest, ?_⟩
    unfold Rupture.sitesWithin
    -- An empty mask would leave the empty collection itself.
    cases hnone : c.isEmpty with
    | true => rfl
    | false =>
      apply SiteCollection.keep_eq_none _ hnone (any_withinReach_eq_false hfar)
      rw [withinReach, List.length_map, hsize]
  · refine ⟨u, .close close found, hu, hclosest, ?_⟩
    have hne : c.isEmpty = false := by
      rw [SiteCollection.isEmpty, ← hsize, beq_eq_false_iff_ne]
      exact (List.length_pos_of_mem hd).ne'
    unfold Rupture.sitesWithin
    rw [hne]
    exact hkeep

/-- Where there is one distance for each site, the search fails just when the distances do or the
table has no answer. Without a limit it gives all sites and distances, and with one it gives just
the sites in reach, each with its distance, or finds that there are none. Searching the projection
of the rupture gives the same sites as a table of one distance. -/
theorem CutoffTable.Obtained.closest_spec [LawfulScalar α] [NumberText α]
    {entries : List (String × Cutoff α)} (ht : Obtained entries t) (hc : c.Built)
    (hlength : r.MeasuresEach c metric) :
    ((∃ e, t.closest c r metric = .error e) ↔
      (∃ e, r.distances c.mesh metric = .error e) ∨
        (t.isEmpty = false ∧ t.contains r.regionType = false ∧
          t.contains defaultRegion = false)) ∧
    (∀ distances, r.distances c.mesh metric = .ok distances →
      (t.isEmpty = true → t.closest c r metric = .ok (.close c distances)) ∧
      ∀ km, t.isEmpty = false → t.get r.regionType (some r.magnitude) = .ok km →
        (t.closest c r metric = .ok .farAway ↔ ∀ d ∈ distances, ¬d ≤ km) ∧
        (c.isEmpty = true → t.closest c r metric = .ok .farAway) ∧
        ((∃ d ∈ distances, d ≤ km) → ∃ close found,
          t.closest c r metric = .ok (.close close found) ∧ c.Closest distances km close found)) ∧
    (r.MeasuresEach c .rjb → ∀ km, Scalar.isExtent km = true → ∃ u outcome, fixed km = .ok u ∧
      u.closest c r .rjb = .ok outcome ∧ r.sitesWithin km c = .ok outcome.sites?) := by
  refine ⟨ht.keeps.closest_error_iff hlength, ?_, ?_⟩
  · intro distances hdistances
    refine ⟨closest_of_isEmpty hdistances, ?_⟩
    intro km hempty hkm
    have hsize := hlength distances hdistances
    obtain ⟨hfar, hclosest⟩ | ⟨⟨d, hd, hle⟩, close, found, hclosest, -, hfound⟩ :=
      closest_cases hdistances hempty hkm hc hsize
    · refine ⟨⟨fun _ => hfar, fun _ => hclosest⟩, fun _ => hclosest, ?_⟩
      rintro ⟨d, hd, hle⟩
      exact absurd hle (hfar d hd)
    · refine ⟨⟨?_, ?_⟩, ?_, fun _ => ⟨close, found, hclosest, hfound⟩⟩
      · intro hfar
        rw [hclosest] at hfar
        cases Except.ok.inj hfar
      · intro hfar
        exact absurd hle (hfar d hd)
      · intro hnone
        rw [SiteCollection.isEmpty, ← hsize, beq_iff_eq] at hnone
        exact absurd (List.length_pos_of_mem hd) (by omega)
  · intro heach km hkm
    exact exists_fixed_closest hc heach hkm

end Outcome

/-- The second and the third of three sites. -/
def lastTwo (positions : Std.HashMap SiteId Nat) : SiteCollection Float :=
  ⟨⟨0, #[⟨⟨7⟩, 10.5, 45, 0⟩, ⟨⟨3⟩, 150, 46, 0⟩, ⟨⟨5⟩, 20, 47, 0⟩], positions⟩, some [1, 2]⟩

/-- A rupture that is as far from a site as the longitude of the site says. -/
def Rupture.byLongitude : Rupture Float :=
  ⟨6.5, 0, "any", ⟨0, 0, 10⟩,
    { PointSurface.toSurface ⟨⟨0, 0, 10⟩, 0⟩ with rjb := Mesh.lons }, none⟩

theorem CutoffTable.closest_on_view : ∃ (c close : SiteCollection Float)
    (t : CutoffTable Float) (r : Rupture Float),
    c.complete.ids = [⟨7⟩, ⟨3⟩, ⟨5⟩] ∧ c.lons = [150, 20] ∧ fixed 100 = .ok t ∧
    t.closest c r .rjb = .ok (.close close [20]) ∧ close.ids = [⟨5⟩] ∧ close.whole = c.whole ∧
    r.sitesWithin 100 c = .ok (some close) := by
  obtain ⟨positions, hall⟩ := @SiteCollection.ofSites_ok Float _ 0
    [⟨⟨7⟩, 10.5, 45, 0⟩, ⟨⟨3⟩, 150, 46, 0⟩, ⟨⟨5⟩, 20, 47, 0⟩] (by decide) (by decide)
  have hview : (lastTwo positions).Built := .keep (.sites hall)
    (show SiteCollection.keep _ [false, true, true] = .ok (some (lastTwo positions)) from rfl)
  obtain ⟨t, ht, hempty, hget⟩ := exists_fixed (show Scalar.isExtent (100 : Float) = true by decide)
  have hsurface : Rupture.byLongitude.surface.MeasuresEach (lastTwo positions).mesh :=
    { PointSurface.measuresEach hview.wellFormed.size_mesh.2 ⟨⟨0, 0, 10⟩, 0⟩ with rjb := rfl }
  have hlength := Rupture.measuresEach_of_surface hsurface hview.wellFormed .rjb
  obtain ⟨-, hclosest, hsites⟩ := Obtained.closest_spec (.made ht) hview hlength
  obtain ⟨-, -, hnear⟩ := (hclosest [150, 20] rfl).2 100 hempty (hget _ _)
  obtain ⟨close, found, hclose, hfound⟩ := hnear ⟨20, by simp, by decide⟩
  have hreach : ((lastTwo positions).toList.zip [150, 20]).filter
      (fun p : _ × Float => decide (p.2 ≤ 100)) = [(⟨⟨5⟩, 20, 47, 0⟩, 20)] := by
    have hfar : decide ((150 : Float) ≤ 100) = false := by decide
    have hin : decide ((20 : Float) ≤ 100) = true := by decide
    change List.filter _
      ([(⟨⟨3⟩, 150, 46, 0⟩, 150), (⟨⟨5⟩, 20, 47, 0⟩, 20)] : List (Site _ × _)) = _
    rw [List.filter_cons, List.filter_cons, hfar, hin]
    rfl
  have hdistances := hfound.found_eq
  have hmembers := hfound.toList_eq
  rw [hreach] at hdistances hmembers
  obtain rfl : found = [20] := hdistances
  obtain ⟨u, outcome, hu, houtcome, hwithin⟩ := hsites hlength 100 (by decide)
  obtain rfl : t = u := Except.ok.inj (ht.symm.trans hu)
  obtain rfl : .close close [20] = outcome := Except.ok.inj (hclose.symm.trans houtcome)
  refine ⟨lastTwo positions, close, t, .byLongitude, rfl, rfl, ht, hclose, ?_, hfound.whole,
    hwithin⟩
  rw [SiteCollection.ids, hmembers]
  rfl

end HazardReach
