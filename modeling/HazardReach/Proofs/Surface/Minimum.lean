import HazardReach.Proofs.Longitude
import HazardReach.Proofs.Sphere.Real
import HazardReach.Proofs.Surface

/-! Distances from a plane, in exact numbers. Moving a coordinate into an interval takes it to the
nearest number there. In the frame of the plane the three axes are at right angles, so the square of
a distance is a sum over coordinates, and moving each of them on its own gives the closest point of
the rectangle and of its projection. -/
namespace HazardReach.Plane

open Trig (toRadians)

section Interval

variable {K : Type} [Field K] [LinearOrder K] [IsStrictOrderedRing K] [FloorRing K]

theorem exists_clamp (x : K) {hi : K} (h : 0 ≤ hi) :
    ∃ a ∈ Set.Icc 0 hi, clamp x hi = .ok a ∧ |x - a| = outside x hi ∧
      ∀ y ∈ Set.Icc 0 hi, |x - a| ≤ |x - y| := by
  have houtside : outside x hi = max (max (-x) (x - hi)) 0 := rfl
  rw [clamp_of_nonneg h, houtside]
  refine ⟨_, ?_, rfl, ?_⟩
  · split_ifs with hlow hhigh
    · exact ⟨le_rfl, h⟩
    · exact ⟨h, le_rfl⟩
    · exact ⟨not_lt.mp hlow, not_lt.mp hhigh⟩
  · split_ifs with hlow hhigh
    · have hmax : max (-x) (x - hi) = -x := max_eq_left (by linarith)
      rw [sub_zero, abs_of_neg hlow, hmax, max_eq_left (by linarith)]
      refine ⟨rfl, ?_⟩
      rintro y ⟨hy, -⟩
      rw [abs_of_nonpos (by linarith)]
      linarith
    · have hmax : max (-x) (x - hi) = x - hi := max_eq_right (by linarith)
      rw [abs_of_pos (sub_pos.mpr hhigh), hmax, max_eq_left (by linarith)]
      refine ⟨rfl, ?_⟩
      rintro y ⟨-, hy⟩
      rw [abs_of_nonneg (by linarith)]
      linarith
    · rw [sub_self, abs_zero, max_eq_right (max_le (by linarith) (by linarith))]
      exact ⟨rfl, fun y _ => abs_nonneg _⟩

end Interval

/-- Squares of the distances between a point and the points of the rectangle. -/
def spaceSquares (s : Plane ℝ) (q : PlaneCoords ℝ) : Set ℝ :=
  {d | ∃ a ∈ Set.Icc 0 s.length, ∃ b ∈ Set.Icc 0 s.width,
    (q.along - a) ^ 2 + (q.across - b * Trig.cos (toRadians s.dip)) ^ 2 +
      (q.depth - b * Trig.sin (toRadians s.dip)) ^ 2 = d}

/-- Squares of the distances along the ground between a point and those of the projection. -/
def groundSquares (s : Plane ℝ) (q : PlaneCoords ℝ) : Set ℝ :=
  {d | ∃ a ∈ Set.Icc 0 s.length, ∃ h ∈ Set.Icc 0 (s.width * Trig.cos (toRadians s.dip)),
    (q.along - a) ^ 2 + (q.across - h) ^ 2 = d}

/-- What is measured from a point to the rectangle, to its projection and past its ends. -/
structure Measured (s : Plane ℝ) (q : PlaneCoords ℝ) (rrup rjb ry0 : ℝ) : Prop where
  rrup_least : IsLeast (s.spaceSquares q) (rrup ^ 2)
  rjb_least : IsLeast (s.groundSquares q) (rjb ^ 2)
  ry0_nonneg : 0 ≤ ry0
  ry0_le_rjb : ry0 ≤ rjb
  rjb_le_rrup : rjb ≤ rrup

section Accepted

variable {s : Plane ℝ}

/-- Down dip and at right angles to the plane are two more axes: only the part along the first
changes with the row of the rectangle. -/
theorem square_across_add_square_depth (dip across depth b : ℝ) :
    (across - b * Trig.cos dip) ^ 2 + (depth - b * Trig.sin dip) ^ 2 =
      (across * Trig.cos dip + depth * Trig.sin dip - b) ^ 2 +
        (across * Trig.sin dip - depth * Trig.cos dip) ^ 2 := by
  have hunit : Trig.sin dip ^ 2 + Trig.cos dip ^ 2 = 1 := Real.sin_sq_add_cos_sq dip
  linear_combination (b ^ 2 - across ^ 2 - depth ^ 2) * hunit

theorem exists_closest (hlength : 0 < s.length) (hwidth : 0 ≤ s.width) (p : Point ℝ) :
    ∃ d, s.closest p = .ok d ∧ 0 ≤ d ∧ IsLeast (s.spaceSquares (s.coords p)) (d ^ 2) := by
  let q := s.coords p
  let down := q.across * Trig.cos (toRadians s.dip) + q.depth * Trig.sin (toRadians s.dip)
  obtain ⟨a, ha, hclamp, -, hnear⟩ := exists_clamp q.along hlength.le
  obtain ⟨b, hb, hclamp', -, hnear'⟩ := exists_clamp down hwidth
  let square := (q.along - a) ^ 2 + (q.across - b * Trig.cos (toRadians s.dip)) ^ 2 +
    (q.depth - b * Trig.sin (toRadians s.dip)) ^ 2
  have hclosest : s.closest p = .ok (Real.sqrt square) := by
    unfold closest
    dsimp only
    rw [hclamp, hclamp']
    simp only [square, pow_two]
    rfl
  refine ⟨Real.sqrt square, hclosest, Real.sqrt_nonneg _, ?_⟩
  rw [Real.sq_sqrt (by positivity)]
  refine ⟨⟨a, ha, b, hb, rfl⟩, ?_⟩
  rintro d ⟨a', ha', b', hb', rfl⟩
  have halong := sq_le_sq.mpr (hnear a' ha')
  have hdown := sq_le_sq.mpr (hnear' b' hb')
  -- In the turned frame the row occurs in one square only, where clamping has made it least.
  simp only [square, add_assoc, square_across_add_square_depth]
  gcongr

theorem joynerBoore_least (hlength : 0 < s.length)
    (hprojected : 0 ≤ s.width * Trig.cos (toRadians s.dip)) (p : Point ℝ) :
    IsLeast (s.groundSquares (s.coords p)) (s.joynerBoore p ^ 2) := by
  obtain ⟨a, ha, -, hout, hnear⟩ := exists_clamp (s.coords p).along hlength.le
  obtain ⟨h, hh, -, hout', hnear'⟩ := exists_clamp (s.coords p).across hprojected
  have hsquare : s.joynerBoore p ^ 2 =
      ((s.coords p).along - a) ^ 2 + ((s.coords p).across - h) ^ 2 := by
    change Real.sqrt (_ * _ + _ * _) ^ 2 = _
    rw [Real.sq_sqrt (add_nonneg (mul_self_nonneg _) (mul_self_nonneg _)), ← hout, ← hout',
      abs_mul_abs_self, abs_mul_abs_self, pow_two, pow_two]
  rw [hsquare]
  refine ⟨⟨a, ha, h, hh, rfl⟩, ?_⟩
  rintro d ⟨a', ha', h', hh', rfl⟩
  have halong := sq_le_sq.mpr (hnear a' ha')
  have hacross := sq_le_sq.mpr (hnear' h' hh')
  gcongr

/-- The row of the rectangle that is closest lies above a row of the projection. -/
theorem rjb_le_rrup {q : PlaneCoords ℝ} {rrup rjb : ℝ}
    (hrrup : IsLeast (s.spaceSquares q) (rrup ^ 2))
    (hrjb : IsLeast (s.groundSquares q) (rjb ^ 2)) (hnonneg : 0 ≤ rrup)
    (hcos : 0 ≤ Trig.cos (toRadians s.dip)) : rjb ≤ rrup := by
  obtain ⟨⟨a, ha, b, hb, hsquare⟩, -⟩ := hrrup
  have hrow : b * Trig.cos (toRadians s.dip) ∈
      Set.Icc 0 (s.width * Trig.cos (toRadians s.dip)) :=
    ⟨mul_nonneg hb.1 hcos, mul_le_mul_of_nonneg_right hb.2 hcos⟩
  apply le_of_sq_le_sq ?_ hnonneg
  calc rjb ^ 2
    _ ≤ (q.along - a) ^ 2 + (q.across - b * Trig.cos (toRadians s.dip)) ^ 2 :=
      hrjb.2 ⟨a, ha, _, hrow, rfl⟩
    _ ≤ rrup ^ 2 := by
      rw [← hsquare]
      exact le_add_of_nonneg_right (sq_nonneg _)

end Accepted

/-- From every point a plane of positive length measures the shortest way to its rectangle, the
shortest way along the ground to the projection, which does not depend on the depth of the point,
and the way past its ends. None of the three is longer than the one before. -/
theorem distances_least (s : Plane ℝ) (hlength : 0 < s.length) (hwidth : 0 ≤ s.width)
    (hlow : 0 < s.dip) (hhigh : s.dip ≤ 90) :
    ∃ rrup rjb ry0 : Point ℝ → ℝ,
      (∀ mesh, s.toSurface.rrup mesh = .ok (mesh.points.map rrup) ∧
        s.toSurface.rjb mesh = mesh.points.map rjb ∧
        s.toSurface.ry0 mesh = mesh.points.map ry0) ∧
      (∀ p, s.Measured (s.coords p) (rrup p) (rjb p) (ry0 p)) ∧
      ∀ p depth, rjb { p with depth } = rjb p := by
  have hcos : 0 ≤ Trig.cos (toRadians s.dip) :=
    Sphere.cos_toRadians_nonneg (abs_le.mpr ⟨by linarith, hhigh⟩)
  choose rrup hrrup hnonneg hleast using exists_closest hlength hwidth
  refine ⟨rrup, s.joynerBoore, fun p => outside (s.coords p).along s.length, ?_, ?_, ?_⟩
  · intro mesh
    refine ⟨?_, rfl, rfl⟩
    change mesh.points.mapM s.closest = _
    rw [funext hrrup]
    exact List.mapM_pure
  · intro p
    have hrjb := joynerBoore_least hlength (mul_nonneg hwidth hcos) p
    exact ⟨hleast p, hrjb, le_max_right _ _, le_hypot _ _,
      rjb_le_rrup (hleast p) hrjb (hnonneg p) hcos⟩
  · exact fun p depth => rfl

theorem exists_ofTopEdge {topLeft topRight : Point ℝ} {dip width : ℝ} (hdip : 0 < dip ∧ dip ≤ 90)
    (hwidth : 0 ≤ width) (hnorth : topLeft.lat < topRight.lat) :
    ∃ s, ofTopEdge topLeft topRight dip width = .ok s ∧ 0 < s.length := by
  have hlength : 0 < Trig.hypot (edge topLeft topRight).1 (edge topLeft topRight).2 := by
    have hedge : 0 < (edge topLeft topRight).2 :=
      mul_pos (sub_pos.mpr hnorth) Sphere.kmPerDegree_pos
    exact Real.sqrt_pos.mpr (add_pos_of_nonneg_of_pos (mul_self_nonneg _) (mul_pos hedge hedge))
  obtain ⟨s, hs⟩ := exists_ofTopEdge_of_length hdip (Scalar.isExtent_exact_iff.mpr hwidth)
    (beq_eq_false_iff_ne.mpr hlength.ne')
  refine ⟨s, hs, ?_⟩
  rwa [(accepts_of_ofTopEdge hs).length_eq]

theorem distances_least_below_edge : ∃ (s : Plane ℝ) (p : Point ℝ) (rrup : ℝ),
    ofTopEdge ⟨0, 0, 2⟩ ⟨0, 1, 2⟩ 45 20 = .ok s ∧ p = ⟨0, 0, 12⟩ ∧
    s.toSurface.rrup (.ofPoints [p]) = .ok [rrup] ∧ rrup ^ 2 = 50 ∧
    s.toSurface.rjb (.ofPoints [p]) = [0] := by
  obtain ⟨s, hs, hlength⟩ : ∃ s : Plane ℝ,
      ofTopEdge ⟨0, 0, 2⟩ ⟨0, 1, 2⟩ 45 20 = .ok s ∧ 0 < s.length :=
    exists_ofTopEdge (by norm_num) (by norm_num) (by norm_num)
  have haccepts := accepts_of_ofTopEdge hs
  have htop := haccepts.topLeft_eq
  have hdip := haccepts.dip_eq
  have hwidth := haccepts.width_eq
  obtain ⟨rrup, rjb, ry0, hlists, hleast, -⟩ := distances_least s hlength (by norm_num [hwidth])
    (by norm_num [hdip]) (by norm_num [hdip])
  obtain ⟨hrrup, hrjb, -⟩ := hlists (.ofPoints [⟨0, 0, 12⟩])
  have hmeasured := hleast ⟨0, 0, 12⟩
  have hcoords : s.coords ⟨0, 0, 12⟩ = ⟨0, 0, 10⟩ := by
    have hextent : Longitude.extent (0 : ℝ) 0 = 0 := by
      rw [Longitude.extent_eq (by norm_num) (by norm_num)]
      norm_num
    unfold coords offset
    rw [htop, hextent]
    norm_num
  have hangle : toRadians s.dip = Real.pi / 4 := by
    rw [hdip]
    change 45 * (Real.pi / 180) = _
    ring
  have hcos : Trig.cos (toRadians s.dip) = √2 / 2 := by
    rw [hangle]
    exact Real.cos_pi_div_four
  have hsin : Trig.sin (toRadians s.dip) = √2 / 2 := by
    rw [hangle]
    exact Real.sin_pi_div_four
  have htwo : √2 * √2 = (2 : ℝ) := Real.mul_self_sqrt (by norm_num)
  rw [hcoords] at hmeasured
  have hfifty : IsLeast (s.spaceSquares ⟨0, 0, 10⟩) 50 := by
    unfold spaceSquares
    rw [hcos, hsin, hwidth]
    constructor
    · refine ⟨0, ⟨le_rfl, hlength.le⟩, 5 * √2, ⟨by positivity, by nlinarith⟩, ?_⟩
      linear_combination (25 / 2 * (√2 * √2) - 25) * htwo
    · rintro d ⟨a, -, b, -, rfl⟩
      nlinarith [sq_nonneg a, sq_nonneg (b * (√2 / 2) - 5)]
  have hzero : IsLeast (s.groundSquares ⟨0, 0, 10⟩) 0 := by
    refine ⟨⟨0, ⟨le_rfl, hlength.le⟩, 0, ⟨le_rfl, ?_⟩, by norm_num⟩, ?_⟩
    · rw [hwidth, hcos]
      positivity
    · rintro d ⟨a, -, h, -, rfl⟩
      positivity
  have hground : rjb ⟨0, 0, 12⟩ = 0 :=
    pow_eq_zero_iff two_ne_zero |>.mp (hmeasured.rjb_least.unique hzero)
  exact ⟨s, _, rrup ⟨0, 0, 12⟩, hs, rfl, hrrup, hmeasured.rrup_least.unique hfifty,
    hrjb.trans (congrArg (fun d => [d]) hground)⟩

end HazardReach.Plane
