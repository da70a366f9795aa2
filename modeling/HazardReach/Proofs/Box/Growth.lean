import HazardReach.Proofs.Box.Enlarged
import HazardReach.Proofs.Sphere.Real

/-! What becomes of a box when it is grown. A box of at most half a turn becomes its arc with the
margin on either side, or all longitudes once the ends of the arc meet. A wider box is measured the
short way round, so that its ends can pass each other unnoticed; what is left then is the part that
they overlap, on the far side of the box. -/
namespace HazardReach.Box

section Outset

variable {K : Type} [Field K] [LinearOrder K] [FloorRing K] {b c : Box K} {margin : K}

theorem contains_of_full [IsStrictOrderedRing K] {lon lat : K} (hwest : b.west = -180)
    (heast : b.east = 180) (hlow : -180 ≤ lon) (hhigh : lon ≤ 180)
    (hlat : b.south ≤ lat ∧ lat ≤ b.north) : b.contains lon lat = true := by
  rw [contains_iff, if_neg (by linarith), hwest, heast]
  exact ⟨hlat, hlow, hhigh⟩

variable [IsStrictOrderedRing K]

theorem abs_extent_eq_rest (hb : b.InRange) (hwidth : 180 ≤ b.width) :
    |Longitude.extent b.west b.east| = 360 - b.width := by
  have hle := hb.width_le
  have hw := hb.le_west
  have hw' := hb.west_le
  have he := hb.le_east
  have he' := hb.east_le
  rw [Longitude.extent_eq (by linarith) (by linarith)]
  by_cases hwraps : b.east < b.west
  · rw [width_of_wraps hwraps] at hwidth hle ⊢
    by_cases hhalf : b.east - b.west ≤ -180
    · rw [if_pos hhalf, abs_of_nonneg (by linarith)]
      linarith
    · rw [if_neg hhalf, if_pos (by linarith), abs_of_nonpos (by linarith)]
      ring
  · rw [width_of_not_wraps hwraps] at hwidth hle ⊢
    rw [if_neg (by linarith)]
    by_cases hhalf : b.east - b.west ≤ 180
    · rw [if_pos hhalf, abs_of_nonneg (by linarith)]
      linarith
    · rw [if_neg hhalf, abs_of_nonpos (by linarith)]
      ring

theorem Outset.contains (h : b.Outset c margin) (hb : b.InRange) (hmargin : 0 ≤ margin)
    (hlt : b.width + 2 * margin < 360) (hsouth : c.south ≤ b.south) (hnorth : b.north ≤ c.north)
    {lon lat : K} (hin : b.contains lon lat = true) : c.contains lon lat = true := by
  have hw' := hb.west_le
  have he := hb.le_east
  have hwest := h.west
  have heast := h.east
  obtain ⟨hlat, hlon⟩ := contains_iff.mp hin
  refine contains_iff.mpr ⟨⟨hsouth.trans hlat.1, hlat.2.trans hnorth⟩, ?_⟩
  -- A box that wraps keeps both edges where they are, and at most one edge of any other moves.
  by_cases hwraps : b.east < b.west
  · rw [width_of_wraps hwraps] at hlt
    rw [if_pos hwraps] at hlon
    rw [if_neg (by linarith)] at hwest heast
    rw [if_pos (by linarith)]
    exact hlon.imp (fun h => by linarith) fun h => by linarith
  · rw [width_of_not_wraps hwraps] at hlt
    rw [if_neg hwraps] at hlon
    by_cases hover : b.west - margin < -180
    · rw [if_pos hover] at hwest
      rw [if_neg (by linarith)] at heast
      rw [if_pos (by linarith)]
      exact .inr (by linarith [hlon.2])
    · rw [if_neg hover] at hwest
      by_cases hover' : 180 < b.east + margin
      · rw [if_pos hover'] at heast
        rw [if_pos (by linarith)]
        exact .inl (by linarith [hlon.1])
      · rw [if_neg hover'] at heast
        rw [if_neg (by linarith)]
        exact ⟨by linarith [hlon.1], by linarith [hlon.2]⟩

theorem InRange.exists_middle (hb : b.InRange) :
    ∃ lon, (-180 ≤ lon ∧ lon ≤ 180) ∧ b.contains lon b.south = true ∧
      ∃ k : ℤ, lon + 360 * k = b.west + b.width / 2 := by
  have hlat := And.intro (le_refl b.south) hb.south_le_north
  have hw := hb.le_west
  have hw' := hb.west_le
  have he := hb.le_east
  have he' := hb.east_le
  by_cases hwraps : b.east < b.west
  · simp only [contains_iff, if_pos hwraps, width_of_wraps hwraps]
    by_cases hpast : b.west + (b.east + 360 - b.west) / 2 ≤ 180
    · exact ⟨b.west + (b.east + 360 - b.west) / 2, ⟨by linarith, hpast⟩,
        ⟨hlat, .inl (by linarith)⟩, 0, by simp⟩
    · refine ⟨b.west + (b.east + 360 - b.west) / 2 - 360, ⟨by linarith, by linarith⟩,
        ⟨hlat, .inr (by linarith)⟩, 1, ?_⟩
      push_cast
      ring
  · simp only [contains_iff, if_neg hwraps, width_of_not_wraps hwraps]
    exact ⟨b.west + (b.east - b.west) / 2, ⟨by linarith, by linarith⟩,
      ⟨hlat, by linarith, by linarith⟩, 0, by simp⟩

/-- Edges that have passed each other leave their overlap, but for those that meet on the date line
from both sides. -/
theorem Outset.width_of_past (h : b.Outset c margin) (hb : b.InRange) (hc : c.InRange)
    (hmargin : margin < 180) (hpast : 360 ≤ b.width + 2 * margin) :
    c.width = b.width + 2 * margin - 360 ∨
      (b.west - margin = -180 ∧ b.east + margin = 180) := by
  obtain ⟨turns, hturns⟩ := h.width_turns
  have hb' := hb.width_le
  have hc' := hc.width_nonneg
  have hc'' := hc.width_le
  have hrange : (-2 : K) < turns ∧ (turns : K) < 1 := ⟨by linarith, by linarith⟩
  norm_cast at hrange
  have hone : turns = -1 ∨ turns = 0 := by omega
  rcases hone with rfl | rfl
  · left
    rw [hturns]
    push_cast
    ring
  · right
    have hfull : c.width = 360 := by
      rw [Int.cast_zero, mul_zero, add_zero] at hturns
      linarith
    have hedges := hc.edges_of_width_eq hfull
    have hw := hb.le_west
    have he' := hb.east_le
    have hwest := h.west
    have heast := h.east
    split at hwest <;> split at heast
    all_goals exact ⟨by linarith [hedges.1], by linarith [hedges.2]⟩

theorem Outset.not_onArc_middle (h : b.Outset c margin) (hle : b.width ≤ 360)
    (hhalf : 2 * margin < b.width) (hwidth : c.width = b.width + 2 * margin - 360) {x : K}
    (hx : ∃ k : ℤ, x + 360 * k = b.west + b.width / 2) : ¬c.OnArc x := by
  obtain ⟨k, hk⟩ := hx
  obtain ⟨l, hl⟩ := h.west_turns
  intro hon
  obtain ⟨m, hm, hm'⟩ := hon
  rw [hwidth] at hm'
  have hlow : -margin ≤ b.width / 2 + 360 * ((m - k - l : ℤ) : K) := by
    push_cast
    linarith
  have hhigh : b.width / 2 + 360 * ((m - k - l : ℤ) : K) ≤ b.width + margin - 360 := by
    push_cast
    linarith
  generalize m - k - l = n at hlow hhigh
  have hturn : (-1 : K) < n ∧ (n : K) < 0 := ⟨by linarith, by linarith⟩
  norm_cast at hturn
  omega

theorem Outset.forall_contains_iff (h : b.Outset c margin) (hb : b.InRange) (hc : c.InRange)
    (hmargin : 0 ≤ margin) (hround : |Longitude.extent b.west b.east| + 2 * margin < 360)
    (hsouth : c.south ≤ b.south) (hnorth : b.north ≤ c.north) :
    (∀ lon lat, -180 ≤ lon → lon ≤ 180 → b.contains lon lat = true → c.contains lon lat = true) ↔
      b.width + 2 * margin < 360 ∨ (b.west - margin = -180 ∧ b.east + margin = 180) := by
  have hle := hb.width_le
  apply Iff.intro
  · intro hall
    by_contra hlost
    obtain ⟨hpast, hdate⟩ := not_or.mp hlost
    have hwidth : 180 ≤ b.width := by
      by_contra hhalf
      rw [abs_extent_eq_width hb (not_le.mp hhalf).le] at hround
      exact hpast hround
    rw [abs_extent_eq_rest hb hwidth] at hround
    have hover : c.width = b.width + 2 * margin - 360 :=
      (h.width_of_past hb hc (by linarith) (not_lt.mp hpast)).resolve_right hdate
    obtain ⟨lon, ⟨hlow, hhigh⟩, hin, hmiddle⟩ := hb.exists_middle
    have hin' := hall lon b.south hlow hhigh hin
    exact h.not_onArc_middle hle (by linarith) hover hmiddle (hc.onArc_of_contains hlow hhigh hin')
  · intro hcases lon lat hlow hhigh hin
    rcases hcases with hlt | ⟨hwest', heast'⟩
    · exact h.contains hb hmargin hlt hsouth hnorth hin
    · have hlat := (contains_iff.mp hin).1
      have hwest := h.west
      have heast := h.east
      rw [hwest', if_neg (lt_irrefl _)] at hwest
      rw [heast', if_neg (lt_irrefl _)] at heast
      exact contains_of_full hwest heast hlow hhigh ⟨hsouth.trans hlat.1, hlat.2.trans hnorth⟩

end Outset

theorem lonMargin_equator (west east km : ℝ) :
    (⟨west, 0, east, 0⟩ : Box ℝ).lonMargin km = min (km * (89932 / 10000000)) 180 := by
  have hcos : Trig.cos (Trig.toRadians (max |(0 : ℝ)| |0|)) = 1 := by
    change Real.cos (max |(0 : ℝ)| |0| * (Real.pi / 180)) = 1
    rw [abs_zero, max_self, zero_mul, Real.cos_zero]
  change min (km * (89932 / 10000000) / Trig.cos (Trig.toRadians (max |(0 : ℝ)| |0|))) 180 = _
  rw [hcos, div_one]

theorem not_contains_enlarged_equator {west east km margin : ℝ}
    (hmargin : (⟨west, 0, east, 0⟩ : Box ℝ).lonMargin km = margin)
    (hround : |Longitude.extent west east| + 2 * margin < 360) (hwest : west - margin < -180)
    (hwest' : 0 < west - margin + 360) (heast : 180 < east + margin)
    (heast' : east + margin - 360 < 0) :
    ((⟨west, 0, east, 0⟩ : Box ℝ).enlarged km).contains 0 0 = false := by
  rcases enlarged_cases (⟨west, 0, east, 0⟩ : Box ℝ) km with ⟨hmeet, -⟩ | ⟨-, hout⟩
  · rw [hmargin] at hmeet
    exact absurd hmeet hround.not_ge
  · have hw := hout.west
    have he := hout.east
    rw [hmargin, if_pos hwest] at hw
    rw [hmargin, if_pos heast] at he
    rw [Bool.eq_false_iff, ne_eq, contains_iff, if_pos (by linarith), hw, he]
    rintro ⟨-, hin | hin⟩
    · exact hwest'.not_ge hin
    · exact heast'.not_ge hin

section Enlarged

variable {K : Type} [Field K] [LinearOrder K] [FloorRing K] [IsStrictOrderedRing K] [Trig K]
  {b : Box K} {km : K}

theorem InRange.cos_pos (hb : b.InRange) (hsouth : -90 < b.south) (hnorth : b.north < 90)
    (hcos : ∀ lat : K, |lat| < 90 → 0 < Trig.cos (Trig.toRadians lat)) :
    0 < Trig.cos (Trig.toRadians (max |b.south| |b.north|)) := by
  have hlat := hb.south_le_north
  apply hcos
  rw [abs_of_nonneg (le_max_of_le_left (abs_nonneg _)), max_lt_iff, abs_lt, abs_lt]
  exact ⟨⟨hsouth, by linarith⟩, by linarith, hnorth⟩

/-- Growing a box loses nothing of it just when it is at most half a turn wide, or stays short of a
full turn, or is grown on either side by half of its width or more, or when its edges come to lie on
the date line exactly. -/
theorem contains_enlarged_iff (hb : b.InRange) (hsouth : -90 < b.south) (hnorth : b.north < 90)
    (hcos : ∀ lat : K, |lat| < 90 → 0 < Trig.cos (Trig.toRadians lat)) (hkm : 0 ≤ km) :
    (∀ lon lat, -180 ≤ lon → lon ≤ 180 → b.contains lon lat = true →
      (b.enlarged km).contains lon lat = true) ↔
    b.width ≤ 180 ∨ b.width + 2 * b.lonMargin km < 360 ∨ b.width ≤ 2 * b.lonMargin km ∨
      (b.west - b.lonMargin km = -180 ∧ b.east + b.lonMargin km = 180) := by
  have hlat := hb.south_le_north
  have hmargin := lonMargin_nonneg hkm (hb.cos_pos hsouth hnorth hcos).le
  have hsouth' : (b.enlarged km).south ≤ b.south := by
    rw [enlarged_south]
    exact max_le (by linarith [latMargin_nonneg hkm]) hsouth.le
  have hnorth' : b.north ≤ (b.enlarged km).north := by
    rw [enlarged_north]
    exact le_min (by linarith [latMargin_nonneg hkm]) hnorth.le
  rcases b.enlarged_cases km with ⟨hround, hwest, heast⟩ | ⟨hround, hout⟩
  · apply iff_of_true
    · intro lon lat hlow hhigh hin
      have hlat := (contains_iff.mp hin).1
      exact contains_of_full hwest heast hlow hhigh ⟨hsouth'.trans hlat.1, hlat.2.trans hnorth'⟩
    · rcases le_total b.width 180 with hwidth | hwidth
      · exact .inl hwidth
      · rw [abs_extent_eq_rest hb hwidth] at hround
        exact .inr (.inr (.inl (by linarith)))
  · have hc := hout.inRange hb hmargin (lonMargin_le b km) (hsouth'.trans (hlat.trans hnorth'))
    rw [hout.forall_contains_iff hb hc hmargin hround hsouth' hnorth']
    apply Iff.intro
    · intro hcases
      exact .inr (hcases.imp_right .inr)
    · intro hcases
      rcases hcases with hwidth | hlt | hhalf | hdate
      · rw [abs_extent_eq_width hb hwidth] at hround
        exact .inl hround
      · exact .inl hlt
      · rcases le_total b.width 180 with hwidth | hwidth
        · rw [abs_extent_eq_width hb hwidth] at hround
          exact .inl hround
        · rw [abs_extent_eq_rest hb hwidth] at hround
          exact absurd hhalf (by linarith)
      · exact .inr hdate

/-- A box of 300 degrees on the equator, grown by a little and by so much that its ends pass. -/
theorem contains_enlarged_wide :
    (∀ lon lat : ℝ, -180 ≤ lon → lon ≤ 180 → (⟨-150, 0, 150, 0⟩ : Box ℝ).contains lon lat = true →
      ((⟨-150, 0, 150, 0⟩ : Box ℝ).enlarged 100).contains lon lat = true) ∧
    ¬∀ lon lat : ℝ, -180 ≤ lon → lon ≤ 180 → (⟨-150, 0, 150, 0⟩ : Box ℝ).contains lon lat = true →
      ((⟨-150, 0, 150, 0⟩ : Box ℝ).enlarged 4500).contains lon lat = true := by
  have hb : (⟨-150, 0, 150, 0⟩ : Box ℝ).InRange := inRange_iff.mpr (by norm_num)
  have hwidth : (⟨-150, 0, 150, 0⟩ : Box ℝ).width = 300 := by
    rw [width_of_not_wraps] <;> norm_num
  constructor
  · rw [contains_enlarged_iff hb (by norm_num) (by norm_num)
      (fun _ => Sphere.cos_toRadians_pos) (by norm_num), hwidth, lonMargin_equator]
    norm_num
  · rw [contains_enlarged_iff hb (by norm_num) (by norm_num)
      (fun _ => Sphere.cos_toRadians_pos) (by norm_num), hwidth, lonMargin_equator]
    norm_num

/-- Boxes on the equator that contain the zero meridian and lose it as they grow: all longitudes
grown by 100 km, and 300 degrees of them grown by 4500 km. -/
theorem not_contains_enlarged_past :
    ((⟨-180, 0, 180, 0⟩ : Box ℝ).InRange ∧ (⟨-180, 0, 180, 0⟩ : Box ℝ).contains 0 0 = true ∧
      ((⟨-180, 0, 180, 0⟩ : Box ℝ).enlarged 100).contains 0 0 = false) ∧
    (⟨-150, 0, 150, 0⟩ : Box ℝ).InRange ∧ (⟨-150, 0, 150, 0⟩ : Box ℝ).contains 0 0 = true ∧
      ((⟨-150, 0, 150, 0⟩ : Box ℝ).enlarged 4500).contains 0 0 = false := by
  refine ⟨⟨?_, ?_, ?_⟩, ?_, ?_, ?_⟩
  · exact inRange_iff.mpr (by norm_num)
  · rw [contains_iff]
    norm_num
  · have hmargin : (⟨-180, 0, 180, 0⟩ : Box ℝ).lonMargin 100 = 0.89932 := by
      rw [lonMargin_equator]
      norm_num
    have hextent : |Longitude.extent (-180) (180 : ℝ)| = 0 := by
      rw [Longitude.extent_eq (by norm_num) (by norm_num)]
      norm_num
    apply not_contains_enlarged_equator hmargin <;> norm_num [hextent]
  · exact inRange_iff.mpr (by norm_num)
  · rw [contains_iff]
    norm_num
  · have hmargin : (⟨-150, 0, 150, 0⟩ : Box ℝ).lonMargin 4500 = 40.4694 := by
      rw [lonMargin_equator]
      norm_num
    have hextent : |Longitude.extent (-150) (150 : ℝ)| = 60 := by
      rw [Longitude.extent_eq (by norm_num) (by norm_num)]
      norm_num
    apply not_contains_enlarged_equator hmargin <;> norm_num [hextent]

/-- A box of at most half a turn, grown by a distance. Its latitudes move by the margin up to the
poles. Its longitudes are all of them once the edges meet; before, its west edge moves west by the
margin, up to whole turns, and its width grows by the margin on either side. Growing it further
takes in more of both. -/
theorem InRange.enlarged_spec (hb : b.InRange) (hwidth : b.width ≤ 180) (hsouth : -90 < b.south)
    (hnorth : b.north < 90) (hcos : ∀ lat : K, |lat| < 90 → 0 < Trig.cos (Trig.toRadians lat))
    (hkm : 0 ≤ km) :
    ((b.enlarged km).south = max (b.south - min (km * Sphere.degreesPerKm) 90) (-90) ∧
      (b.enlarged km).north = min (b.north + min (km * Sphere.degreesPerKm) 90) 90) ∧
    (360 ≤ b.width + 2 * b.lonMargin km →
      (b.enlarged km).west = -180 ∧ (b.enlarged km).east = 180) ∧
    (b.width + 2 * b.lonMargin km < 360 →
      (b.enlarged km).InRange ∧
        (∃ k : ℤ, (b.enlarged km).west = b.west - b.lonMargin km + 360 * k) ∧
        (b.enlarged km).width = b.width + 2 * b.lonMargin km) ∧
    ∀ far, km ≤ far → ((b.enlarged far).south ≤ (b.enlarged km).south ∧
      (b.enlarged km).north ≤ (b.enlarged far).north) ∧
      ∀ x, (b.enlarged km).OnArc x → (b.enlarged far).OnArc x := by
  have hlat := hb.south_le_north
  have hsouth' : b.south ≤ 90 := by linarith
  have hnorth' : -90 ≤ b.north := by linarith
  have hpole := (hb.cos_pos hsouth hnorth hcos).le
  have hmargin := lonMargin_nonneg hkm hpole
  have hcases := b.enlarged_cases km
  rw [abs_extent_eq_width hb hwidth] at hcases
  refine ⟨⟨enlarged_south b km, enlarged_north b km⟩, ?_, ?_, ?_⟩
  · intro hmeet
    rcases hcases with ⟨-, hedges⟩ | ⟨hlt, -⟩
    · exact hedges
    · exact absurd hmeet hlt.not_ge
  · intro hlt
    rcases hcases with ⟨hmeet, -⟩ | ⟨-, hout⟩
    · exact absurd hmeet hlt.not_ge
    · have hc := hb.enlarged hkm hmargin hsouth' hnorth'
      exact ⟨hc, hout.west_turns, hout.width hb hc hmargin hlt⟩
  · intro far hle
    have hfar := hmargin.trans (lonMargin_mono hle hpole)
    refine ⟨⟨?_, ?_⟩, ?_⟩
    · rw [enlarged_south, enlarged_south]
      exact max_le_max_right _ (sub_le_sub_left (latMargin_mono hle) _)
    · rw [enlarged_north, enlarged_north]
      exact min_le_min_right _ (add_le_add_right (latMargin_mono hle) _)
    · intro x
      rw [hb.enlarged_onArc_iff hkm hmargin hsouth' hnorth' hwidth,
        hb.enlarged_onArc_iff (hkm.trans hle) hfar hsouth' hnorth' hwidth]
      rintro ⟨y, hy, hnear⟩
      exact ⟨y, hy, hnear.trans (lonMargin_mono hle hpole)⟩

theorem enlarged_over_date_line :
    (-180 ≤ ((ofLocation 179 0 : Box ℝ).enlarged 300).east ∧
      ((ofLocation 179 0 : Box ℝ).enlarged 300).east ≤ 180) ∧
    ((ofLocation 179 0 : Box ℝ).enlarged 300).width = 5.39592 ∧
    ((ofLocation 179 0 : Box ℝ).enlarged 300).OnArc (-179) ∧
    ((ofLocation 179 0 : Box ℝ).enlarged 600).OnArc (-179) ∧
    ((ofLocation 179 0 : Box ℝ).enlarged 20100).west = -180 := by
  have hb : (ofLocation 179 0 : Box ℝ).InRange := inRange_iff.mpr (by norm_num [ofLocation])
  have hspec (km : ℝ) (hkm : 0 ≤ km) := hb.enlarged_spec (by simp) (by norm_num [ofLocation])
    (by norm_num [ofLocation]) (fun _ => Sphere.cos_toRadians_pos) hkm
  have hmargin : (ofLocation 179 0 : Box ℝ).lonMargin 300 = 2.69796 := by
    refine (lonMargin_equator 179 179 300).trans ?_
    norm_num
  have hmargin' : (ofLocation 179 0 : Box ℝ).lonMargin 20100 = 180 := by
    refine (lonMargin_equator 179 179 20100).trans ?_
    norm_num
  have hnear := (hspec 300 (by norm_num)).2.2.1
  have hfar := (hspec 20100 (by norm_num)).2.1
  rw [width_ofLocation, hmargin] at hnear
  rw [width_ofLocation, hmargin'] at hfar
  obtain ⟨hrange, ⟨k, hk⟩, hwidth⟩ := hnear (by norm_num)
  have hwest : ((ofLocation 179 0 : Box ℝ).enlarged 300).west = 179 - 2.69796 + 360 * k := hk
  have hon : ((ofLocation 179 0 : Box ℝ).enlarged 300).OnArc (-179) := by
    refine ⟨k + 1, ?_, ?_⟩
    · rw [hwest]
      push_cast
      linarith
    · rw [hwest, hwidth]
      push_cast
      linarith
  refine ⟨⟨hrange.le_east, hrange.east_le⟩, ?_, hon, ?_, (hfar (by norm_num)).1⟩
  · rw [hwidth]
    norm_num
  · exact ((hspec 300 (by norm_num)).2.2.2 600 (by norm_num)).2 _ hon

end Enlarged

end HazardReach.Box
