import HazardReach.Proofs.Box.Enclosing

/-! Boxes grown by a distance. The distance becomes a margin of latitude and one of longitude, both
in degrees. A box of at most half a turn then reaches the meridians within the margin of its arc; of
the box that runs all the way round only the date line is grown. -/
namespace HazardReach.Box

variable {K : Type} [Field K] [LinearOrder K] [FloorRing K]

def latMargin (km : K) : K := min (km * Sphere.degreesPerKm) 90

theorem degreesPerKm_nonneg [IsStrictOrderedRing K] : (0 : K) ≤ Sphere.degreesPerKm := by
  change (0 : K) ≤ 89932 / 10000000
  norm_num

theorem latMargin_nonneg [IsStrictOrderedRing K] {km : K} (hkm : 0 ≤ km) : 0 ≤ latMargin km :=
  le_min (mul_nonneg hkm degreesPerKm_nonneg) (by norm_num)

theorem latMargin_mono [IsStrictOrderedRing K] {km far : K} (hle : km ≤ far) :
    latMargin km ≤ latMargin far :=
  min_le_min_right _ (mul_le_mul_of_nonneg_right hle degreesPerKm_nonneg)

section Outset

variable {b c : Box K} {margin : K}

/-- A box whose edges are those of `b` moved outwards by a margin, back into range. -/
structure Outset (b c : Box K) (margin : K) : Prop where
  west : c.west = if b.west - margin < -180 then b.west - margin + 360 else b.west - margin
  east : c.east = if 180 < b.east + margin then b.east + margin - 360 else b.east + margin

omit [FloorRing K] in
theorem Outset.west_turns (h : b.Outset c margin) :
    ∃ k : ℤ, c.west = b.west - margin + 360 * k := by
  rw [h.west]
  split
  · exact ⟨1, by push_cast; ring⟩
  · exact ⟨0, by push_cast; ring⟩

omit [FloorRing K] in
theorem Outset.east_turns (h : b.Outset c margin) :
    ∃ k : ℤ, c.east = b.east + margin + 360 * k := by
  rw [h.east]
  split
  · exact ⟨-1, by push_cast; ring⟩
  · exact ⟨0, by push_cast; ring⟩

variable [IsStrictOrderedRing K]

theorem abs_extent_eq_width (hb : b.InRange) (hwidth : b.width ≤ 180) :
    |Longitude.extent b.west b.east| = b.width := by
  have hnonneg := hb.width_nonneg
  have hw := hb.le_west
  have hw' := hb.west_le
  have he := hb.le_east
  have he' := hb.east_le
  rw [Longitude.extent_eq (by linarith) (by linarith)]
  by_cases hwraps : b.east < b.west
  · rw [width_of_wraps hwraps] at hwidth hnonneg ⊢
    rw [if_pos (by linarith), abs_of_nonneg (by linarith)]
    ring
  · rw [width_of_not_wraps hwraps] at hwidth hnonneg ⊢
    rw [if_neg (by linarith), if_pos hwidth, abs_of_nonneg hnonneg]

theorem Outset.inRange (h : b.Outset c margin) (hb : b.InRange) (hmargin : 0 ≤ margin)
    (hmargin' : margin ≤ 180) (hlat : c.south ≤ c.north) : c.InRange := by
  have hw := hb.le_west
  have hw' := hb.west_le
  have he := hb.le_east
  have he' := hb.east_le
  have hwest := h.west
  have heast := h.east
  split at hwest <;> split at heast
  all_goals
    exact inRange_iff.mpr ⟨⟨by linarith, by linarith⟩, ⟨by linarith, by linarith⟩, hlat⟩

theorem Outset.width_turns (h : b.Outset c margin) :
    ∃ k : ℤ, c.width = b.width + 2 * margin + 360 * k := by
  obtain ⟨k, hk⟩ := h.west_turns
  obtain ⟨l, hl⟩ := h.east_turns
  obtain ⟨m, hm⟩ := b.width_turns
  obtain ⟨n, hn⟩ := c.width_turns
  refine ⟨n + l - k - m, ?_⟩
  push_cast
  linarith

theorem Outset.width (h : b.Outset c margin) (hb : b.InRange) (hc : c.InRange)
    (hmargin : 0 ≤ margin) (hlt : b.width + 2 * margin < 360) : c.width = b.width + 2 * margin := by
  obtain ⟨turns, hturns⟩ := h.width_turns
  have hb' := hb.width_nonneg
  have hc' := hc.width_nonneg
  have hc'' := hc.width_le
  have hrange : (-1 : K) < turns ∧ (turns : K) ≤ 1 := ⟨by linarith, by linarith⟩
  norm_cast at hrange
  have hone : turns = 0 ∨ turns = 1 := by omega
  rcases hone with rfl | rfl
  · simpa using hturns
  · -- A full turn is left only of edges on the date line that have not been moved.
    exfalso
    push_cast at hturns
    have hfull : c.width = 360 := by linarith
    have hedges := hc.edges_of_width_eq hfull
    have hzero : margin = 0 := by linarith
    have hwest := h.west
    have heast := h.east
    rw [hzero, sub_zero, if_neg (not_lt.mpr hb.le_west), hedges.1] at hwest
    rw [hzero, add_zero, if_neg (not_lt.mpr hb.east_le), hedges.2] at heast
    rw [width_of_not_wraps (by linarith)] at hlt
    linarith

/-- A meridian is within the margin of the arc when it is between the edges moved outwards. -/
theorem exists_onArc_near_iff {x : K} (hwidth : 0 ≤ b.width) (hmargin : 0 ≤ margin) :
    (∃ y, b.OnArc y ∧ |x - y| ≤ margin) ↔
      ∃ m : ℤ, b.west - margin ≤ x + 360 * m ∧ x + 360 * m ≤ b.west + b.width + margin := by
  apply Iff.intro
  · intro h
    obtain ⟨y, ⟨m, hy, hy'⟩, hnear⟩ := h
    have hnear := abs_le.mp hnear
    exact ⟨m, by linarith [hnear.1], by linarith [hnear.2]⟩
  · intro h
    obtain ⟨m, hx, hx'⟩ := h
    -- The nearest meridian of the arc is an edge of it, unless the meridian lies on it.
    by_cases hwest : x + 360 * m < b.west
    · refine ⟨b.west - 360 * m, ⟨m, by linarith, by linarith⟩, ?_⟩
      exact abs_le.mpr ⟨by linarith, by linarith⟩
    · by_cases heast : b.west + b.width < x + 360 * m
      · refine ⟨b.west + b.width - 360 * m, ⟨m, by linarith, by linarith⟩, ?_⟩
        exact abs_le.mpr ⟨by linarith, by linarith⟩
      · refine ⟨x, ⟨m, not_lt.mp hwest, not_lt.mp heast⟩, ?_⟩
        simpa using hmargin

theorem Outset.onArc_iff {x : K} (h : b.Outset c margin) (hb : b.InRange) (hc : c.InRange)
    (hmargin : 0 ≤ margin) (hlt : b.width + 2 * margin < 360) :
    c.OnArc x ↔ ∃ y, b.OnArc y ∧ |x - y| ≤ margin := by
  have hwidth := h.width hb hc hmargin hlt
  obtain ⟨k, hk⟩ := h.west_turns
  rw [exists_onArc_near_iff hb.width_nonneg hmargin]
  unfold OnArc
  rw [hwidth, hk]
  apply Iff.intro
  · intro hon
    obtain ⟨m, hm, hm'⟩ := hon
    exact ⟨m - k, by push_cast; linarith, by push_cast; linarith⟩
  · intro hnear
    obtain ⟨m, hm, hm'⟩ := hnear
    exact ⟨m + k, by push_cast; linarith, by push_cast; linarith⟩

theorem exists_onArc_near {x : K} (hwidth : 0 ≤ b.width) (hmargin : 0 ≤ margin)
    (hfull : 360 ≤ b.width + 2 * margin) : ∃ y, b.OnArc y ∧ |x - y| ≤ margin := by
  obtain ⟨hlow, hhigh, m, hm⟩ := Longitude.positive_spec (x - (b.west - margin))
  rw [exists_onArc_near_iff hwidth hmargin]
  exact ⟨m, by linarith, by linarith⟩

theorem not_near_opposite (lon lat : K) (hmargin : margin < 180) :
    ¬∃ y, (ofLocation lon lat).OnArc y ∧ |lon + 180 - y| ≤ margin := by
  intro h
  obtain ⟨y, hy, hnear⟩ := h
  obtain ⟨k, hk⟩ := onArc_ofLocation_iff.mp hy
  have hnear := abs_le.mp hnear
  have hturn : (-1 : K) < k ∧ (k : K) < 0 := ⟨by linarith [hnear.1], by linarith [hnear.2]⟩
  norm_cast at hturn
  omega

end Outset

variable [Trig K]

/-- How far longitudes are moved, at the latitude nearest to a pole. -/
def lonMargin (b : Box K) (km : K) : K :=
  min (Sphere.longitudeWidth km b.south (some b.north)) (Scalar.ofNat 180)

/-- The location is within the margins of the box. -/
def Nears (b : Box K) (km lon lat : K) : Prop :=
  (b.south - latMargin km ≤ lat ∧ lat ≤ b.north + latMargin km) ∧
    ∃ x, b.OnArc x ∧ |lon - x| ≤ b.lonMargin km

theorem lonMargin_nonneg [IsStrictOrderedRing K] {b : Box K} {km : K} (hkm : 0 ≤ km)
    (hcos : 0 ≤ Trig.cos (Trig.toRadians (max |b.south| |b.north|))) : 0 ≤ b.lonMargin km :=
  le_min (div_nonneg (mul_nonneg hkm degreesPerKm_nonneg) hcos) (show (0 : K) ≤ 180 by norm_num)

theorem lonMargin_ofLocation [IsStrictOrderedRing K] (lon : K) {lat : K} (hlat : 0 ≤ lat)
    (km : K) : (ofLocation lon lat).lonMargin km =
      min (km * Sphere.degreesPerKm / Trig.cos (Trig.toRadians lat)) 180 := by
  change min (km * Sphere.degreesPerKm / Trig.cos (Trig.toRadians (max |lat| |lat|))) 180 = _
  rw [max_self, abs_of_nonneg hlat]

theorem lonMargin_le (b : Box K) (km : K) : b.lonMargin km ≤ 180 := min_le_right _ _

theorem lonMargin_mono [IsStrictOrderedRing K] {b : Box K} {km far : K} (hle : km ≤ far)
    (hcos : 0 ≤ Trig.cos (Trig.toRadians (max |b.south| |b.north|))) :
    b.lonMargin km ≤ b.lonMargin far := by
  apply min_le_min_right
  exact div_le_div_of_nonneg_right (mul_le_mul_of_nonneg_right hle degreesPerKm_nonneg) hcos

theorem enlarged_eq (b : Box K) (km : K) :
    b.enlarged km =
      if 360 ≤ |Longitude.extent b.west b.east| + 2 * b.lonMargin km then
        ⟨-180, max (b.south - latMargin km) (-90), 180, min (b.north + latMargin km) 90⟩
      else
        ⟨if b.west - b.lonMargin km < -180 then b.west - b.lonMargin km + 360
          else b.west - b.lonMargin km, max (b.south - latMargin km) (-90),
          if 180 < b.east + b.lonMargin km then b.east + b.lonMargin km - 360
          else b.east + b.lonMargin km, min (b.north + latMargin km) 90⟩ := rfl

@[simp] theorem enlarged_south (b : Box K) (km : K) :
    (b.enlarged km).south = max (b.south - latMargin km) (-90) := by
  rw [enlarged_eq]
  split <;> rfl

@[simp] theorem enlarged_north (b : Box K) (km : K) :
    (b.enlarged km).north = min (b.north + latMargin km) 90 := by
  rw [enlarged_eq]
  split <;> rfl

theorem enlarged_lat_iff {b : Box K} {km lat : K} (hlow : -90 ≤ lat) (hhigh : lat ≤ 90) :
    (b.enlarged km).south ≤ lat ∧ lat ≤ (b.enlarged km).north ↔
      b.south - latMargin km ≤ lat ∧ lat ≤ b.north + latMargin km := by
  rw [enlarged_south, enlarged_north, max_le_iff, le_min_iff]
  simp only [hlow, hhigh, and_true]

theorem enlarged_cases (b : Box K) (km : K) :
    (360 ≤ |Longitude.extent b.west b.east| + 2 * b.lonMargin km ∧
      (b.enlarged km).west = -180 ∧ (b.enlarged km).east = 180) ∨
    (|Longitude.extent b.west b.east| + 2 * b.lonMargin km < 360 ∧
      b.Outset (b.enlarged km) (b.lonMargin km)) := by
  rw [enlarged_eq]
  by_cases h : 360 ≤ |Longitude.extent b.west b.east| + 2 * b.lonMargin km
  · rw [if_pos h]
    exact .inl ⟨h, rfl, rfl⟩
  · rw [if_neg h]
    exact .inr ⟨not_le.mp h, rfl, rfl⟩

section Margins

variable [IsStrictOrderedRing K] {b : Box K} {km : K} (hkm : 0 ≤ km) (hmargin : 0 ≤ b.lonMargin km)

include hkm in
theorem enlarged_south_le_north (hlat : b.south ≤ b.north) (hsouth : b.south ≤ 90)
    (hnorth : -90 ≤ b.north) : (b.enlarged km).south ≤ (b.enlarged km).north := by
  have hmargin := latMargin_nonneg hkm
  rw [enlarged_south, enlarged_north, max_le_iff, le_min_iff, le_min_iff]
  exact ⟨⟨by linarith, by linarith⟩, by linarith, by norm_num⟩

include hkm hmargin

theorem InRange.enlarged (hb : b.InRange) (hsouth : b.south ≤ 90) (hnorth : -90 ≤ b.north) :
    (b.enlarged km).InRange := by
  have hlat := enlarged_south_le_north hkm hb.south_le_north hsouth hnorth
  cases b.enlarged_cases km with
  | inl h =>
    have hwest := h.2.1
    have heast := h.2.2
    exact inRange_iff.mpr ⟨⟨hwest.ge, by linarith⟩, ⟨by linarith, heast.le⟩, hlat⟩
  | inr h => exact h.2.inRange hb hmargin (lonMargin_le b km) hlat

theorem InRange.enlarged_onArc_iff (hb : b.InRange) (hsouth : b.south ≤ 90)
    (hnorth : -90 ≤ b.north) (hwidth : b.width ≤ 180) {x : K} :
    (b.enlarged km).OnArc x ↔ ∃ y, b.OnArc y ∧ |x - y| ≤ b.lonMargin km := by
  have hc := hb.enlarged hkm hmargin hsouth hnorth
  have hcases := b.enlarged_cases km
  rw [abs_extent_eq_width hb hwidth] at hcases
  cases hcases with
  | inl h =>
    exact iff_of_true (onArc_of_full h.2.1 h.2.2) (exists_onArc_near hb.width_nonneg hmargin h.1)
  | inr h => exact h.2.onArc_iff hb hc hmargin h.1

omit hkm in
theorem InRange.enlarged_onArc_of_dateLine (hb : b.InRange) (hfull : b.width = 360) {x : K} {m : ℤ}
    (hnear : |x + 360 * m - 180| ≤ b.lonMargin km) : (b.enlarged km).OnArc x := by
  have hwest := (hb.edges_of_width_eq hfull).1
  have heast := (hb.edges_of_width_eq hfull).2
  have hextent : |Longitude.extent b.west b.east| = 0 := by
    rw [hwest, heast, Longitude.extent_eq (by norm_num) (by norm_num)]
    norm_num
  have hcases := b.enlarged_cases km
  rw [hextent, zero_add] at hcases
  cases hcases with
  | inl h => exact onArc_of_full h.2.1 h.2.2
  | inr h =>
    have hwest' := h.2.west
    have heast' := h.2.east
    rw [hwest] at hwest'
    rw [heast] at heast'
    have hnear := abs_le.mp hnear
    rcases hmargin.eq_or_lt with hzero | hpos
    · rw [← hzero] at hwest' heast'
      norm_num at hwest' heast'
      exact onArc_of_full hwest' heast'
    · rw [if_pos (by linarith)] at hwest' heast'
      have hwraps : (b.enlarged km).east < (b.enlarged km).west := by linarith
      refine ⟨m, by linarith [hnear.1], ?_⟩
      rw [width_of_wraps hwraps]
      linarith [hnear.2]

end Margins

end HazardReach.Box
