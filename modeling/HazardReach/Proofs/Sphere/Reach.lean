import HazardReach.Proofs.Sphere.Turns

/-! What a great circle reaches. Its angle is that of the spherical law of cosines, so that it is
no shorter than the difference of the latitudes, and a short one keeps near the meridian where it
begins. In degrees it is at most half of pi times as long as on a plane. -/
namespace HazardReach.Sphere

variable {lon lat lon' lat' margin : ℝ}

theorem two_mul_square_sin_half (x y : ℝ) :
    2 * square (Real.sin ((x - y) * (Real.pi / 360))) =
      1 - Real.cos (x * (Real.pi / 180) - y * (Real.pi / 180)) := by
  have hdouble : x * (Real.pi / 180) - y * (Real.pi / 180) =
      2 * ((x - y) * (Real.pi / 360)) := by
    ring
  rw [hdouble, Real.cos_two_mul, Real.cos_sq', square]
  ring

theorem cos_two_mul_arcsin_sqrt {a : ℝ} (ha : 0 ≤ a) (ha' : a ≤ 1) :
    Real.cos (2 * Real.arcsin (min (Real.sqrt a) 1)) = 1 - 2 * a := by
  have hroot : Real.sqrt a ≤ 1 := Real.sqrt_le_one.mpr ha'
  have hneg : -1 ≤ Real.sqrt a := by linarith [Real.sqrt_nonneg a]
  rw [min_eq_left hroot, Real.cos_two_mul, Real.cos_sq', Real.sin_arcsin hneg hroot,
    Real.sq_sqrt ha]
  ring

/-- The spherical law of cosines. -/
theorem cos_distance (hlat : |lat| ≤ 90) (hlat' : |lat'| ≤ 90) (lon lon' : ℝ) :
    Real.cos (distance lon lat lon' lat' / 6371) =
      Real.sin (lat * (Real.pi / 180)) * Real.sin (lat' * (Real.pi / 180)) +
        Real.cos (lat * (Real.pi / 180)) * Real.cos (lat' * (Real.pi / 180)) *
          Real.cos (lon * (Real.pi / 180) - lon' * (Real.pi / 180)) := by
  have hcos : 0 ≤ Real.cos (lat * (Real.pi / 180)) := cos_toRadians_nonneg hlat
  have hcos' : 0 ≤ Real.cos (lat' * (Real.pi / 180)) := cos_toRadians_nonneg hlat'
  have hproduct := mul_nonneg hcos hcos'
  have hheight := two_mul_square_sin_half lat lat'
  have hwidth := two_mul_square_sin_half lon lon'
  have hturn := mul_le_mul_of_nonneg_left
    (Real.neg_one_le_cos (lon * (Real.pi / 180) - lon' * (Real.pi / 180))) hproduct
  have hsum := Real.cos_le_one (lat * (Real.pi / 180) + lat' * (Real.pi / 180))
  have hdistance : distance lon lat lon' lat' / 6371 = 2 * Real.arcsin (min (Real.sqrt (
      square (Real.sin ((lat - lat') * (Real.pi / 360))) +
        Real.cos (lat * (Real.pi / 180)) * Real.cos (lat' * (Real.pi / 180)) *
          square (Real.sin ((lon - lon') * (Real.pi / 360))))) 1) := by
    rw [distance_eq, mul_assoc, mul_div_assoc]
    change 2 * (6371 * Real.arcsin _ / 6371) = _
    rw [mul_div_cancel_left₀ _ (by norm_num)]
    rfl
  rw [Real.cos_sub] at hheight
  rw [Real.cos_add] at hsum
  have hsquares : 0 ≤ square (Real.sin ((lat - lat') * (Real.pi / 360))) ∧
      0 ≤ square (Real.sin ((lon - lon') * (Real.pi / 360))) :=
    ⟨mul_self_nonneg _, mul_self_nonneg _⟩
  rw [hdistance, cos_two_mul_arcsin_sqrt]
  · linear_combination -hheight - Real.cos (lat * (Real.pi / 180)) *
      Real.cos (lat' * (Real.pi / 180)) * hwidth
  · exact add_nonneg hsquares.1 (mul_nonneg hproduct hsquares.2)
  · have hscaled := congrArg (fun x => Real.cos (lat * (Real.pi / 180)) *
      Real.cos (lat' * (Real.pi / 180)) * x) hwidth
    linarith

theorem angle_mem (lon lat lon' lat' : ℝ) :
    0 ≤ distance lon lat lon' lat' / 6371 ∧ distance lon lat lon' lat' / 6371 ≤ Real.pi := by
  refine ⟨div_nonneg (distance_nonneg _ _ _ _) (by norm_num), ?_⟩
  rw [div_le_iff₀ (by norm_num), distance_eq]
  have hquarter (x : ℝ) := Real.arcsin_le_pi_div_two x
  linarith [hquarter (min (Real.sqrt (square (Real.sin ((lat - lat') * (Real.pi / 360))) +
    Trig.cos (Trig.toRadians lat) * Trig.cos (Trig.toRadians lat') *
      square (Real.sin ((lon - lon') * (Real.pi / 360))))) 1)]

theorem abs_lat_sub_le (hlat : |lat| ≤ 90) (hlat' : |lat'| ≤ 90) (lon lon' : ℝ) :
    |lat - lat'| * kmPerDegree ≤ distance lon lat lon' lat' := by
  obtain ⟨hnonneg, hturn⟩ := angle_mem lon lat lon' lat'
  have hpi := Real.pi_pos
  have hproduct := mul_nonneg (cos_toRadians_nonneg hlat) (cos_toRadians_nonneg hlat')
  have hcos : Real.cos (distance lon lat lon' lat' / 6371) ≤
      Real.cos (|lat - lat'| * (Real.pi / 180)) := by
    have hdifference : |lat - lat'| * (Real.pi / 180) =
        |lat * (Real.pi / 180) - lat' * (Real.pi / 180)| := by
      rw [← sub_mul, abs_mul, abs_of_pos (show 0 < Real.pi / 180 by positivity)]
    rw [cos_distance hlat hlat', hdifference, Real.cos_abs, Real.cos_sub (lat * _), add_comm]
    exact add_le_add_left (mul_le_of_le_one_right hproduct (Real.cos_le_one _)) _
  have hdifference : |lat - lat'| ≤ 180 := by
    have hlat := abs_le.mp hlat
    have hlat' := abs_le.mp hlat'
    rw [abs_le]
    exact ⟨by linarith, by linarith⟩
  have hangle : |lat - lat'| * (Real.pi / 180) ≤ distance lon lat lon' lat' / 6371 := by
    refine (Real.strictAntiOn_cos.le_iff_ge ⟨hnonneg, hturn⟩ ⟨by positivity, ?_⟩).mp hcos
    nlinarith
  rw [le_div_iff₀ (by norm_num)] at hangle
  change |lat - lat'| * (6371 * Real.pi / 180) ≤ _
  linarith

theorem sin_angle_nonneg (lon lat lon' lat' : ℝ) :
    0 ≤ Real.sin (distance lon lat lon' lat' / 6371) :=
  Real.sin_nonneg_of_nonneg_of_le_pi (angle_mem _ _ _ _).1 (angle_mem _ _ _ _).2

/-- The way to a meridian is no shorter than the one that meets it at a right angle. -/
theorem cos_mul_abs_sin_le (hlat : |lat| ≤ 90) (hlat' : |lat'| ≤ 90) (lon lon' : ℝ) :
    Real.cos (lat * (Real.pi / 180)) *
      |Real.sin (lon * (Real.pi / 180) - lon' * (Real.pi / 180))| ≤
        Real.sin (distance lon lat lon' lat' / 6371) := by
  have hangle := Real.sin_sq_add_cos_sq (distance lon lat lon' lat' / 6371)
  have hturn := Real.sin_sq_add_cos_sq (lon * (Real.pi / 180) - lon' * (Real.pi / 180))
  have hhere := Real.sin_sq_add_cos_sq (lat * (Real.pi / 180))
  have hthere := Real.sin_sq_add_cos_sq (lat' * (Real.pi / 180))
  apply le_of_abs_le
  apply abs_le_of_sq_le_sq _ (sin_angle_nonneg lon lat lon' lat')
  rw [mul_pow, sq_abs]
  rw [cos_distance hlat hlat'] at hangle
  generalize Real.sin (lat * (Real.pi / 180)) = s, Real.cos (lat * (Real.pi / 180)) = c at *
  generalize Real.sin (lat' * (Real.pi / 180)) = s', Real.cos (lat' * (Real.pi / 180)) = c' at *
  generalize Real.cos (lon * (Real.pi / 180) - lon' * (Real.pi / 180)) = d at *
  -- The inequality of Cauchy, with what it leaves.
  have hcauchy : (s * s' + c * c' * d) ^ 2 + (s * c' - c * d * s') ^ 2 = s ^ 2 + c ^ 2 * d ^ 2 := by
    linear_combination (s ^ 2 + c ^ 2 * d ^ 2) * hthere
  linear_combination c ^ 2 * hturn - hangle + hcauchy + hhere + sq_nonneg (s * c' - c * d * s')

theorem cos_le_sin_angle (hlat : |lat| ≤ 90) (hlat' : |lat'| ≤ 90) (lon lon' : ℝ)
    (hfar : Real.cos (lon * (Real.pi / 180) - lon' * (Real.pi / 180)) ≤ 0)
    (hnear : 0 ≤ Real.cos (distance lon lat lon' lat' / 6371)) :
    Real.cos (lat * (Real.pi / 180)) ≤ Real.sin (distance lon lat lon' lat' / 6371) := by
  have hangle := Real.sin_sq_add_cos_sq (distance lon lat lon' lat' / 6371)
  have hhere := Real.sin_sq_add_cos_sq (lat * (Real.pi / 180))
  have hproduct : 0 ≤ Real.cos (lat * (Real.pi / 180)) * Real.cos (lat' * (Real.pi / 180)) :=
    mul_nonneg (cos_toRadians_nonneg hlat) (cos_toRadians_nonneg hlat')
  have hle : Real.cos (distance lon lat lon' lat' / 6371) ≤
      Real.sin (lat * (Real.pi / 180)) * Real.sin (lat' * (Real.pi / 180)) := by
    rw [cos_distance hlat hlat']
    exact add_le_of_nonpos_right (mul_nonpos_of_nonneg_of_nonpos hproduct hfar)
  have hsquare : Real.cos (distance lon lat lon' lat' / 6371) ^ 2 ≤
      Real.sin (lat * (Real.pi / 180)) ^ 2 := by
    calc
      _ ≤ (Real.sin (lat * (Real.pi / 180)) * Real.sin (lat' * (Real.pi / 180))) ^ 2 :=
        pow_le_pow_left₀ hnear hle 2
      _ = Real.sin (lat * (Real.pi / 180)) ^ 2 * Real.sin (lat' * (Real.pi / 180)) ^ 2 :=
        mul_pow _ _ 2
      _ ≤ _ := mul_le_of_le_one_right (sq_nonneg _) (Real.sin_sq_le_one _)
  apply le_of_abs_le
  apply abs_le_of_sq_le_sq _ (sin_angle_nonneg lon lat lon' lat')
  linarith

theorem angle_between (lon lon' : ℝ) (turns : ℤ) :
    Real.cos (lon * (Real.pi / 180) - lon' * (Real.pi / 180)) =
        Real.cos (|lon' - lon + 360 * turns| * (Real.pi / 180)) ∧
      |Real.sin (lon * (Real.pi / 180) - lon' * (Real.pi / 180))| =
        |Real.sin (|lon' - lon + 360 * turns| * (Real.pi / 180))| := by
  have hturn : lon * (Real.pi / 180) - lon' * (Real.pi / 180) =
      -((lon' - lon + 360 * turns) * (Real.pi / 180)) + turns * (2 * Real.pi) := by
    ring
  rw [hturn, Real.cos_add_int_mul_two_pi, Real.sin_add_int_mul_two_pi, Real.cos_neg,
    Real.sin_neg, abs_neg]
  rcases abs_choice (lon' - lon + 360 * turns) with habs | habs <;> rw [habs]
  · exact ⟨rfl, rfl⟩
  · rw [neg_mul, Real.cos_neg, Real.sin_neg, abs_neg]
    exact ⟨rfl, rfl⟩

theorem angle_le_of_distance_le (hlat : |lat| < 90) (hmargin : 0 ≤ margin) (hquarter : margin ≤ 90)
    (h : distance lon lat lon' lat' * (Real.pi / 2) ≤
      margin * Trig.cos (Trig.toRadians lat) * kmPerDegree) :
    distance lon lat lon' lat' / 6371 ≤
      Real.cos (lat * (Real.pi / 180)) * Real.sin (margin * (Real.pi / 180)) := by
  have hpi := Real.pi_pos
  have hcos : 0 < Real.cos (lat * (Real.pi / 180)) := cos_toRadians_pos hlat
  have hchord : 2 / Real.pi * (margin * (Real.pi / 180)) ≤ Real.sin (margin * (Real.pi / 180)) :=
    Real.mul_le_sin (by positivity) (by nlinarith)
  have hscaled := mul_le_mul_of_nonneg_left hchord hcos.le
  refine le_trans ?_ hscaled
  change _ ≤ margin * Real.cos (lat * (Real.pi / 180)) * (6371 * Real.pi / 180) at h
  rw [div_le_iff₀ (by norm_num)]
  calc
    _ = distance lon lat lon' lat' * (Real.pi / 2) * (2 / Real.pi) := by field_simp
    _ ≤ margin * Real.cos (lat * (Real.pi / 180)) * (6371 * Real.pi / 180) * (2 / Real.pi) :=
      mul_le_mul_of_nonneg_right h (by positivity)
    _ = _ := by ring

/-- A way of at most two parts in pi of a margin, taken along the parallel where it begins, stays
within the margin. -/
theorem exists_turn_of_distance_le (hlat : |lat| < 90) (hlat' : |lat'| ≤ 90) (hmargin : 0 ≤ margin)
    (hquarter : margin ≤ 90)
    (h : distance lon lat lon' lat' * (Real.pi / 2) ≤
      margin * Trig.cos (Trig.toRadians lat) * kmPerDegree) :
    ∃ turns : ℤ, |lon' - lon + 360 * turns| ≤ margin := by
  have hpi := Real.pi_gt_three
  have hcos : 0 < Real.cos (lat * (Real.pi / 180)) := cos_toRadians_pos hlat
  have hangle := (angle_mem lon lat lon' lat').1
  have hsine := cos_mul_abs_sin_le hlat.le hlat' lon lon'
  have hpole := cos_le_sin_angle hlat.le hlat' lon lon'
  have hway := angle_le_of_distance_le hlat hmargin hquarter h
  obtain ⟨k, hk, hk'⟩ := Longitude.exists_turn (lon' - lon + 180)
  have hhalf : |lon' - lon + 360 * ((-k : ℤ) : ℝ)| ≤ 180 := by
    push_cast
    exact abs_le.mpr ⟨by linarith, by linarith⟩
  obtain ⟨hcosine, habs⟩ := angle_between lon lon' (-k)
  refine ⟨-k, ?_⟩
  by_contra hpast
  rw [not_le] at hpast
  rw [habs] at hsine
  rw [hcosine] at hpole
  generalize |lon' - lon + 360 * ((-k : ℤ) : ℝ)| = turn at *
  generalize distance lon lat lon' lat' / 6371 = angle at *
  have hsin : Real.sin angle ≤ angle := Real.sin_le hangle
  rcases le_or_gt turn 90 with hnear | hfar
  · have hlt : Real.sin (margin * (Real.pi / 180)) < Real.sin (turn * (Real.pi / 180)) := by
      apply Real.strictMonoOn_sin
      · constructor <;> nlinarith
      · constructor <;> nlinarith
      · nlinarith
    have hle := le_abs_self (Real.sin (turn * (Real.pi / 180)))
    have hscaled := mul_lt_mul_of_pos_left (hlt.trans_le hle) hcos
    linarith
  · have hbehind : Real.cos (turn * (Real.pi / 180)) ≤ 0 := by
      apply Real.cos_nonpos_of_pi_div_two_le_of_le <;> nlinarith
    have hshort : angle ≤ Real.cos (lat * (Real.pi / 180)) :=
      hway.trans (mul_le_of_le_one_right hcos.le (Real.sin_le_one _))
    have hone := Real.cos_le_one (lat * (Real.pi / 180))
    have hreach := hpole hbehind (by apply Real.cos_nonneg_of_neg_pi_div_two_le_of_le <;> linarith)
    rcases hangle.eq_or_lt with hzero | hpos
    · rw [← hzero, Real.sin_zero] at hreach
      exact hcos.not_ge hreach
    · exact (Real.sin_lt hpos).not_ge (hshort.trans hreach)

theorem arcsin_le_of_nonneg {x : ℝ} (h : 0 ≤ x) : Real.arcsin (min x 1) ≤ Real.pi / 2 * x := by
  have hpi := Real.pi_pos
  have hmin : 0 ≤ min x 1 := le_min h zero_le_one
  have hchord := Real.mul_le_sin (Real.arcsin_nonneg.mpr hmin) (Real.arcsin_le_pi_div_two _)
  rw [Real.sin_arcsin (by linarith) (min_le_right _ _)] at hchord
  calc
    Real.arcsin (min x 1) = Real.pi / 2 * (2 / Real.pi * Real.arcsin (min x 1)) := by field_simp
    _ ≤ Real.pi / 2 * min x 1 := mul_le_mul_of_nonneg_left hchord (by positivity)
    _ ≤ Real.pi / 2 * x := mul_le_mul_of_nonneg_left (min_le_left _ _) (by positivity)

theorem square_sin_le (x : ℝ) : square (Real.sin x) ≤ x ^ 2 := by
  rw [square, ← sq, sq_le_sq]
  exact Real.abs_sin_le_abs

theorem distance_le (hlat : |lat| ≤ 90) (hlat' : |lat'| ≤ 90) (lon lon' : ℝ) :
    distance lon lat lon' lat' ≤
      Real.pi / 2 * kmPerDegree * Real.sqrt ((lat - lat') ^ 2 + (lon - lon') ^ 2) := by
  have hpi := Real.pi_pos
  have hcos : 0 ≤ Trig.cos (Trig.toRadians lat) := cos_toRadians_nonneg hlat
  have hcos' : 0 ≤ Trig.cos (Trig.toRadians lat') := cos_toRadians_nonneg hlat'
  have hle : Trig.cos (Trig.toRadians lat) * Trig.cos (Trig.toRadians lat') ≤ 1 :=
    mul_le_one₀ (Real.cos_le_one _) hcos' (Real.cos_le_one _)
  have hwidth : Trig.cos (Trig.toRadians lat) * Trig.cos (Trig.toRadians lat') *
      square (Real.sin ((lon - lon') * (Real.pi / 360))) ≤ ((lon - lon') * (Real.pi / 360)) ^ 2 :=
    (mul_le_of_le_one_left (mul_self_nonneg _) hle).trans (square_sin_le _)
  have hroot := Real.sqrt_le_sqrt (add_le_add (square_sin_le ((lat - lat') * (Real.pi / 360)))
    hwidth)
  rw [mul_pow, mul_pow, ← add_mul, Real.sqrt_mul (by positivity),
    Real.sqrt_sq (by positivity)] at hroot
  rw [distance_eq]
  have harc := arcsin_le_of_nonneg (Real.sqrt_nonneg (
    square (Real.sin ((lat - lat') * (Real.pi / 360))) +
      Trig.cos (Trig.toRadians lat) * Trig.cos (Trig.toRadians lat') *
        square (Real.sin ((lon - lon') * (Real.pi / 360)))))
  have hscaled := mul_le_mul_of_nonneg_left hroot (show 0 ≤ Real.pi / 2 by positivity)
  calc
    _ ≤ 2 * 6371 * (Real.pi / 2 *
        (Real.sqrt ((lat - lat') ^ 2 + (lon - lon') ^ 2) * (Real.pi / 360))) :=
      mul_le_mul_of_nonneg_left (harc.trans hscaled) (by norm_num)
    _ = Real.pi / 2 * (6371 * Real.pi / 180) *
        Real.sqrt ((lat - lat') ^ 2 + (lon - lon') ^ 2) := by ring

end HazardReach.Sphere
