import HazardReach.Proofs.Box.Arc
import HazardReach.Sphere.Enclosure

/-! The box around a set of points. Its edges are coordinates of the points and every point is in
it. It is at most half a turn wide, unless the date line is written both ways among the points:
then it runs all the way round. -/
namespace HazardReach.Box

variable {K : Type} [Field K] [LinearOrder K] [FloorRing K]

/-- The box is drawn around points of the given coordinates. -/
structure Encloses (b : Box K) (lons lats : List K) : Prop where
  inRange : b.InRange
  west_mem : b.west ∈ lons
  east_mem : b.east ∈ lons
  south_mem : b.south ∈ lats
  north_mem : b.north ∈ lats
  lat : ∀ lat ∈ lats, b.south ≤ lat ∧ lat ≤ b.north
  onArc : ∀ lon ∈ lons, b.OnArc lon
  width : b.width ≤ 180 ∨ b.width = 360

variable [IsStrictOrderedRing K]

theorem spans_iff {west east : K} {lons : List K} (hw : -180 ≤ west ∧ west ≤ 180)
    (he : -180 ≤ east ∧ east ≤ 180) (hlon : ∀ lon ∈ lons, -180 ≤ lon ∧ lon ≤ 180) :
    spans west east lons = true ↔ ∀ lon ∈ lons,
      (lon - west ≤ -180 ∨ (0 ≤ lon - west ∧ lon - west ≤ 180) ∨ lon - west = 360) ∧
        (east - lon ≤ -180 ∨ (0 ≤ east - lon ∧ east - lon ≤ 180) ∨ east - lon = 360) := by
  unfold spans
  rw [List.all_eq_true]
  apply forall₂_congr
  intro lon hmem
  have h := hlon lon hmem
  rw [Bool.and_eq_true, decide_eq_true_eq, decide_eq_true_eq,
    ← Longitude.extent_nonneg_iff west lon (by linarith) (by linarith),
    ← Longitude.extent_nonneg_iff lon east (by linarith) (by linarith)]

omit [IsStrictOrderedRing K] in
theorem exists_of_edgesAcross? {lons : List K} {west east : K}
    (h : edgesAcross? lons = some (west, east)) :
    ∃ high low, Scalar.bounds? (lons.filter fun lon => decide (0 < lon)) = some (west, high) ∧
      Scalar.bounds? (lons.filter fun lon => decide (lon < 0)) = some (low, east) ∧
      spans west east lons = true := by
  simp only [edgesAcross?, Option.bind_eq_bind, Option.bind_eq_some_iff, Option.some.injEq,
    exists_eq_left', Option.ite_none_right_eq_some, Prod.mk.injEq] at h
  rcases h with ⟨wests, hwests, easts, heasts, hspans, rfl, rfl⟩
  exact ⟨wests.2, easts.1, hwests, heasts, hspans⟩

theorem edgesAcross?_spec {lons : List K} {west east : K}
    (hlon : ∀ lon ∈ lons, -180 ≤ lon ∧ lon ≤ 180)
    (hboth : ¬(-180 ∈ lons ∧ 180 ∈ lons)) (h : edgesAcross? lons = some (west, east)) :
    west ∈ lons ∧ east ∈ lons ∧ east - west ≤ -180 ∧ ∀ lon ∈ lons, west ≤ lon ∨ lon ≤ east := by
  obtain ⟨high, low, hwests, heasts, hspans⟩ := exists_of_edgesAcross? h
  have hwest := (Scalar.bounds?_eq_some hwests).1
  have hwests := (Scalar.bounds?_eq_some hwests).2.2
  have heast := (Scalar.bounds?_eq_some heasts).2.1
  have heasts := (Scalar.bounds?_eq_some heasts).2.2
  simp only [List.mem_filter, decide_eq_true_eq, and_imp] at hwest heast hwests heasts
  have hw := hlon west hwest.1
  have he := hlon east heast.1
  rw [spans_iff hw he hlon] at hspans
  refine ⟨hwest.1, heast.1, ?_, ?_⟩
  · rcases (hspans west hwest.1).2 with h | h | h
    · exact h
    · linarith [hwest.2, heast.2]
    · linarith [hwest.2, heast.2]
  · intro lon hmem
    have hrange := hlon lon hmem
    rcases lt_trichotomy lon 0 with hneg | rfl | hpos
    · exact .inr (heasts lon hmem hneg).2
    · -- Only edges that both lie on the date line span the zero meridian.
      exfalso
      apply hboth
      have hzero := hspans 0 hmem
      have hwest180 : west = 180 := by
        rcases hzero.1 with h | h | h <;> linarith [hwest.2]
      have heast180 : east = -180 := by
        rcases hzero.2 with h | h | h <;> linarith [heast.2]
      exact ⟨heast180 ▸ heast.1, hwest180 ▸ hwest.1⟩
    · exact .inl (hwests lon hmem hpos).1

private theorem onArc_of_contains_lons {b : Box K} (hb : b.InRange) {lons : List K}
    (hlon : ∀ lon ∈ lons, -180 ≤ lon ∧ lon ≤ 180)
    (h : ∀ lon ∈ lons, if b.east < b.west then b.west ≤ lon ∨ lon ≤ b.east
      else b.west ≤ lon ∧ lon ≤ b.east) : ∀ lon ∈ lons, b.OnArc lon := by
  intro lon hmem
  have hrange := hlon lon hmem
  apply hb.onArc_of_contains hrange.1 hrange.2
  exact contains_iff.mpr ⟨⟨le_rfl, hb.south_le_north⟩, h lon hmem⟩

theorem encloses_of_bounds {lons lats : List K} {west east south north : K}
    (hlon : ∀ lon ∈ lons, -180 ≤ lon ∧ lon ≤ 180) (hlons : Scalar.bounds? lons = some (west, east))
    (hlats : Scalar.bounds? lats = some (south, north)) (h : 0 ≤ Longitude.extent west east) :
    (⟨west, south, east, north⟩ : Box K).Encloses lons lats := by
  obtain ⟨hwest, heast, hbetween⟩ := Scalar.bounds?_eq_some hlons
  obtain ⟨hsouth, hnorth, hlat⟩ := Scalar.bounds?_eq_some hlats
  have hw := hlon west hwest
  have he := hlon east heast
  have hwraps : ¬east < west := not_lt.mpr (hbetween east heast).1
  have hb : (⟨west, south, east, north⟩ : Box K).InRange :=
    inRange_iff.mpr ⟨hw, he, (hlat north hnorth).1⟩
  refine ⟨hb, hwest, heast, hsouth, hnorth, hlat, ?_, ?_⟩
  · apply onArc_of_contains_lons hb hlon
    intro lon hmem
    rw [if_neg hwraps]
    exact hbetween lon hmem
  · rw [Longitude.extent_nonneg_iff west east (by linarith) (by linarith)] at h
    rw [width_of_not_wraps hwraps]
    rcases h with h | h | h
    · exact .inl (by linarith)
    · exact .inl h.2
    · exact .inr h

theorem encloses_of_edgesAcross? {lons lats : List K} {low high west east south north : K}
    (hlon : ∀ lon ∈ lons, -180 ≤ lon ∧ lon ≤ 180) (hlons : Scalar.bounds? lons = some (low, high))
    (hlats : Scalar.bounds? lats = some (south, north)) (h : Longitude.extent low high < 0)
    (hedges : edgesAcross? lons = some (west, east)) :
    (⟨west, south, east, north⟩ : Box K).Encloses lons lats := by
  obtain ⟨hlow, hhigh, hbetween⟩ := Scalar.bounds?_eq_some hlons
  obtain ⟨hsouth, hnorth, hlat⟩ := Scalar.bounds?_eq_some hlats
  have hl := hlon low hlow
  have hh := hlon high hhigh
  have hboth : ¬(-180 ∈ lons ∧ 180 ∈ lons) := by
    intro hboth
    have hfirst := (hbetween _ hboth.1).1
    have hlast := (hbetween _ hboth.2).2
    apply h.not_ge
    rw [Longitude.extent_nonneg_iff low high (by linarith) (by linarith)]
    exact .inr (.inr (by linarith))
  obtain ⟨hwest, heast, hacross, hsides⟩ := edgesAcross?_spec hlon hboth hedges
  have hw := hlon west hwest
  have he := hlon east heast
  have hwraps : east < west := by linarith
  have hb : (⟨west, south, east, north⟩ : Box K).InRange :=
    inRange_iff.mpr ⟨hw, he, (hlat north hnorth).1⟩
  refine ⟨hb, hwest, heast, hsouth, hnorth, hlat, ?_, .inl ?_⟩
  · apply onArc_of_contains_lons hb hlon
    intro lon hmem
    rw [if_pos hwraps]
    exact hsides lon hmem
  · rw [width_of_wraps hwraps]
    linarith

theorem encloses_of_enclosing {lons lats : List K} {b : Box K}
    (h : enclosing lons lats = .ok b) : b.Encloses lons lats := by
  unfold enclosing at h
  split at h
  · contradiction
  split at h
  · rename_i west east south north hlons hlats
    split at h
    · contradiction
    rename_i hrange
    have hlon : ∀ lon ∈ lons, -180 ≤ lon ∧ lon ≤ 180 := by
      simpa [List.any_eq_true] using hrange
    split at h
    · rename_i hneg
      split at h
      · rename_i west' east' hedges
        rw [← Except.ok.inj h]
        exact encloses_of_edgesAcross? hlon hlons hlats hneg hedges
      · contradiction
    · rename_i hnonneg
      rw [← Except.ok.inj h]
      exact encloses_of_bounds hlon hlons hlats (not_lt.mp hnonneg)
  · contradiction

end HazardReach.Box
