import HazardReach.Proofs.Sphere.Turns
import HazardReach.Proofs.Surface.Minimum

/-! Directivity of planes, in exact numbers. The hypocentre and the point are both moved into the
top edge before the way between them is divided by its length, so that the run is a fraction of the
length wherever the two are. Running against strike turns the heading by half a turn: the cosine
changes its sign and so does the run, and one formula holds both ways. -/
namespace HazardReach

open Trig (toRadians)

section HalfTurns

variable {K : Type} [Field K] [LinearOrder K] [FloorRing K] [Trig K]
  (hhalf : ∀ x : K, Trig.cos (x + Trig.pi) = -Trig.cos x)

include hhalf

theorem cos_toRadians_add_half (x : K) :
    Trig.cos (toRadians (x + 180)) = -Trig.cos (toRadians x) := by
  have hturned : toRadians (x + 180) = toRadians x + Trig.pi := by
    change (x + 180) * (Trig.pi / 180) = x * (Trig.pi / 180) + Trig.pi
    ring
  rw [hturned, hhalf]

theorem cos_toRadians_sub_half (x : K) :
    Trig.cos (toRadians (x - 180)) = -Trig.cos (toRadians x) := by
  have hback := cos_toRadians_add_half hhalf (x - 180)
  rw [sub_add_cancel] at hback
  rw [hback, neg_neg]

theorem abs_cos_toRadians_add_halves (x : K) (halves : ℤ) :
    |Trig.cos (toRadians (x + 180 * halves))| = |Trig.cos (toRadians x)| := by
  induction halves using Int.induction_on with
  | zero => simp
  | succ n ih =>
    have hstep : x + 180 * ((n + 1 : ℤ) : K) = x + 180 * (n : ℤ) + 180 := by
      push_cast
      ring
    rw [hstep, cos_toRadians_add_half hhalf, abs_neg, ih]
  | pred n ih =>
    have hstep : x + 180 * ((-n - 1 : ℤ) : K) = x + 180 * (-n : ℤ) - 180 := by
      push_cast
      ring
    rw [hstep, cos_toRadians_sub_half hhalf, abs_neg, ih]

end HalfTurns

namespace Plane

section Exact

variable {K : Type} [Field K] [LinearOrder K] [FloorRing K] [Trig K]

variable {s : Plane K} {hypocenter p : Point K} {slip : K}

/-- The run from the hypocentre to the point as a signed part of the length, seen from strike. -/
theorem directivityAt_eq [IsStrictOrderedRing K]
    (hhalf : ∀ x : K, Trig.cos (x + Trig.pi) = -Trig.cos x) {a h : K}
    (ha : clamp (s.coords p).along s.length = .ok a)
    (hh : clamp (s.coords hypocenter).along s.length = .ok h) :
    s.directivityAt hypocenter slip p = .ok (if hypocenter.epicentral p = 0 then 0
      else (a - h) / s.length * Trig.cos (toRadians (hypocenter.bearing p - s.strike)) *
        |Trig.cos (toRadians slip)|) := by
  -- Against strike the run and the cosine of the turned heading both change their sign.
  have hrun : |a - h| * Trig.cos (toRadians (hypocenter.bearing p -
      if 0 ≤ a - h then s.strike else s.strike + 180)) =
        (a - h) * Trig.cos (toRadians (hypocenter.bearing p - s.strike)) := by
    split_ifs with hforward
    · rw [abs_of_nonneg hforward]
    · rw [abs_of_neg (not_le.mp hforward), ← sub_sub, cos_toRadians_sub_half hhalf, neg_mul_neg]
  unfold directivityAt
  rw [ha, hh]
  simp only [beq_iff_eq]
  change Except.ok (if _ then _ else |a - h| / s.length * _ * _) = _
  rw [div_mul_eq_mul_div, hrun, ← div_mul_eq_mul_div]
  rfl

theorem directivityAt_add_halves (hhalf : ∀ x : K, Trig.cos (x + Trig.pi) = -Trig.cos x)
    (halves : ℤ) :
    s.directivityAt hypocenter (slip + 180 * halves) = s.directivityAt hypocenter slip := by
  unfold directivityAt
  rw [Scalar.abs_exact, Scalar.abs_exact, abs_cos_toRadians_add_halves hhalf]

/-- What the directivity at a point is. Its epicentre is known by the distance and by the place. -/
structure Directed (s : Plane K) (hypocenter p : Point K) (slip value : K) : Prop where
  mem_Icc : value ∈ Set.Icc (-1) 1
  /-- The run goes between two places on the top edge and is seen from strike. -/
  run : ∃ a ∈ Set.Icc 0 s.length, ∃ h ∈ Set.Icc 0 s.length,
    clamp (s.coords p).along s.length = .ok a ∧
    clamp (s.coords hypocenter).along s.length = .ok h ∧
    (hypocenter.epicentral p ≠ 0 →
      value = (a - h) / s.length * Trig.cos (toRadians (hypocenter.bearing p - s.strike)) *
        |Trig.cos (toRadians slip)|)
  eq_zero_of_epicentral : hypocenter.epicentral p = 0 → value = 0
  eq_zero_of_place : Longitude.SameMeridian hypocenter.lon p.lon → p.lat = hypocenter.lat →
    value = 0
  eq_zero_of_clamp : clamp (s.coords p).along s.length =
    clamp (s.coords hypocenter).along s.length → value = 0

variable [IsStrictOrderedRing K]

theorem coords_along_congr (hlon : Longitude.SameMeridian hypocenter.lon p.lon)
    (hlat : p.lat = hypocenter.lat) : (s.coords p).along = (s.coords hypocenter).along := by
  unfold coords offset
  dsimp only
  rw [Longitude.extent_congr _ hlon, hlat]

theorem exists_directed (hcos : ∀ x : K, |Trig.cos x| ≤ 1)
    (hhalf : ∀ x : K, Trig.cos (x + Trig.pi) = -Trig.cos x) (hlength : 0 < s.length)
    (hypocenter : Point K) (slip : K) (p : Point K) :
    ∃ value, s.directivityAt hypocenter slip p = .ok value ∧
      s.Directed hypocenter p slip value := by
  obtain ⟨a, ha, hclamp, -⟩ := exists_clamp (s.coords p).along hlength.le
  obtain ⟨h, hh, hclamp', -⟩ := exists_clamp (s.coords hypocenter).along hlength.le
  let heading := Trig.cos (toRadians (hypocenter.bearing p - s.strike))
  let aligned := |Trig.cos (toRadians slip)|
  -- Both places are in one interval, and no two numbers in it are further apart than its ends.
  have hfraction : |(a - h) / s.length| ≤ 1 := by
    rw [abs_div, abs_of_pos hlength, div_le_one hlength]
    exact abs_sub_le_of_nonneg_of_le ha.1 ha.2 hh.1 hh.2
  have hbound : |(a - h) / s.length * heading * aligned| ≤ 1 := by
    rw [abs_mul, abs_mul, abs_abs]
    exact mul_le_one₀ (mul_le_one₀ hfraction (abs_nonneg _) (hcos _)) (abs_nonneg _) (hcos _)
  have hclamped (hsame : clamp (s.coords p).along s.length =
      clamp (s.coords hypocenter).along s.length) : (a - h) / s.length * heading * aligned = 0 := by
    rw [hclamp, hclamp'] at hsame
    rw [Except.ok.inj hsame, sub_self, zero_div, zero_mul, zero_mul]
  refine ⟨_, directivityAt_eq hhalf hclamp hclamp', ?_⟩
  by_cases hepicenter : hypocenter.epicentral p = 0
  · rw [if_pos hepicenter]
    exact ⟨⟨by norm_num, by norm_num⟩, ⟨a, ha, h, hh, hclamp, hclamp', absurd hepicenter⟩,
      fun _ => rfl, fun _ _ => rfl, fun _ => rfl⟩
  · rw [if_neg hepicenter]
    exact ⟨abs_le.mp hbound, ⟨a, ha, h, hh, hclamp, hclamp', fun _ => rfl⟩,
      fun hzero => absurd hzero hepicenter,
      fun hlon hlat => hclamped (by rw [coords_along_congr hlon hlat]), hclamped⟩

/-- A plane of positive length has one directivity for each point of a mesh. It is the signed
fraction of the length that the rupture runs, lessened by two cosines, and so zero where nothing is
run. Half turns of the slip direction do not change it. -/
theorem directivity_fraction (hcos : ∀ x : K, |Trig.cos x| ≤ 1)
    (hhalf : ∀ x : K, Trig.cos (x + Trig.pi) = -Trig.cos x) (s : Plane K) (hlength : 0 < s.length)
    (hypocenter : Point K) (slip : K) :
    ∃ value : Point K → K,
      (∀ mesh, s.toSurface.directivity hypocenter slip mesh = .ok (mesh.points.map value)) ∧
      (∀ p, s.Directed hypocenter p slip (value p)) ∧
      ∀ (halves : ℤ) mesh, s.toSurface.directivity hypocenter (slip + 180 * halves) mesh =
        s.toSurface.directivity hypocenter slip mesh := by
  choose value hvalue hdirected using exists_directed hcos hhalf hlength hypocenter slip
  refine ⟨value, ?_, hdirected, ?_⟩
  · intro mesh
    change mesh.points.mapM (s.directivityAt hypocenter slip) = _
    rw [funext hvalue]
    exact List.mapM_pure
  · intro halves mesh
    change mesh.points.mapM (s.directivityAt hypocenter (slip + 180 * halves)) = _
    rw [directivityAt_add_halves hhalf]
    rfl

end Exact

theorem exists_northward {topLeft topRight : Point ℝ} {dip width : ℝ} (hdip : 0 < dip ∧ dip ≤ 90)
    (hwidth : 0 ≤ width) (hlon : topRight.lon = topLeft.lon) (hnorth : topLeft.lat < topRight.lat) :
    ∃ s, ofTopEdge topLeft topRight dip width = .ok s ∧ s.strike = 0 ∧
      s.length = (topRight.lat - topLeft.lat) * Sphere.kmPerDegree ∧
      ∀ p, (s.coords p).along = (p.lat - topLeft.lat) * Sphere.kmPerDegree := by
  obtain ⟨s, hs, hpos⟩ := exists_ofTopEdge hdip hwidth hnorth
  obtain ⟨haccepts, hframed⟩ := kept_of_ofTopEdge hs
  let north := (topRight.lat - topLeft.lat) * Sphere.kmPerDegree
  have hpositive : 0 < north := mul_pos (sub_pos.mpr hnorth) Sphere.kmPerDegree_pos
  have hedge : edge topLeft topRight = (0, north) := by
    unfold edge offset
    rw [hlon, Longitude.extent_self, zero_mul, zero_mul]
  have hlength : s.length = north := by
    rw [haccepts.length_eq, hedge]
    change Real.sqrt (0 * 0 + north * north) = north
    rw [mul_zero, zero_add, Real.sqrt_mul_self hpositive.le]
  have halong : s.along = (0, 1) := by
    rw [hframed.along_eq, hedge, hlength, zero_div, div_self hpositive.ne']
  refine ⟨s, hs, ?_, hlength, ?_⟩
  · rw [hframed.strike_eq, hedge]
    change Longitude.positive (Complex.arg (north : ℝ) * (180 / Real.pi)) = 0
    rw [Complex.arg_ofReal_of_nonneg hpositive.le, zero_mul, Longitude.positive_zero]
  · intro p
    unfold coords offset
    dsimp only
    rw [halong, haccepts.topLeft_eq, mul_zero, zero_add, mul_one]

/-- From a hypocentre off the plane, past its second end, the whole length is run against strike
towards a point past the first end. Nothing is run to a point further north, and nothing to the
epicentre, here under another longitude. -/
theorem directivity_fraction_against_strike : ∃ (s : Plane ℝ) (mesh : Mesh ℝ),
    ofTopEdge ⟨0, 0, 0⟩ ⟨0, 1, 0⟩ 90 10 = .ok s ∧ 0 < s.length ∧
    mesh = .ofPoints [⟨0, -1, 0⟩, ⟨0, 3, 0⟩, ⟨360, 2, 0⟩] ∧
    s.toSurface.directivity ⟨0, 2, 5⟩ 0 mesh = .ok [1, 0, 0] ∧
    s.toSurface.directivity ⟨0, 2, 5⟩ 180 mesh = .ok [1, 0, 0] := by
  obtain ⟨s, hs, hstrike, hlength, halong⟩ : ∃ s : Plane ℝ,
      ofTopEdge ⟨0, 0, 0⟩ ⟨0, 1, 0⟩ 90 10 = .ok s ∧ s.strike = 0 ∧
        s.length = (1 - 0) * Sphere.kmPerDegree ∧
        ∀ p, (s.coords p).along = (p.lat - 0) * Sphere.kmPerDegree :=
    exists_northward (by norm_num) (by norm_num) rfl (by norm_num)
  rw [sub_zero, one_mul] at hlength
  have hpos : 0 < s.length := hlength ▸ Sphere.kmPerDegree_pos
  have hclamp (p : Point ℝ) : clamp (s.coords p).along s.length = .ok
      (if p.lat * s.length < 0 then 0 else if s.length < p.lat * s.length then s.length
        else p.lat * s.length) := by
    rw [clamp_of_nonneg hpos.le, halong, sub_zero, hlength]
  have hpast (p : Point ℝ) (hlat : 1 < p.lat) :
      clamp (s.coords p).along s.length = .ok s.length := by
    rw [hclamp, if_neg (by nlinarith), if_pos (by nlinarith)]
  have hbefore : clamp (s.coords ⟨0, -1, 0⟩).along s.length = .ok 0 := by
    rw [hclamp, if_pos (by linarith)]
  have hslip : Trig.cos (toRadians (0 : ℝ)) = 1 := by
    change Real.cos (0 * _) = 1
    rw [zero_mul, Real.cos_zero]
  have hheading : Trig.cos (toRadians (Point.bearing ⟨0, 2, 5⟩ ⟨0, -1, 0⟩ - s.strike)) = -1 := by
    have hbearing : Point.bearing (⟨0, 2, 5⟩ : Point ℝ) ⟨0, -1, 0⟩ = 180 :=
      (Sphere.bearing_same_lon 0 (by norm_num [abs_lt])).trans (if_pos (by norm_num))
    rw [hbearing, hstrike, sub_zero, ← zero_add 180, cos_toRadians_add_half Real.cos_add_pi, hslip]
  have haway : Point.epicentral (⟨0, 2, 5⟩ : Point ℝ) ⟨0, -1, 0⟩ ≠ 0 := by
    unfold Point.epicentral
    rw [Sphere.distance_same_lon 0 (by norm_num [abs_le])]
    norm_num [Real.pi_ne_zero]
  obtain ⟨value, hvalues, hdirected, hhalves⟩ :=
    directivity_fraction Real.abs_cos_le_one Real.cos_add_pi s hpos ⟨0, 2, 5⟩ 0
  have hbehind : value ⟨0, -1, 0⟩ = 1 := by
    obtain ⟨a, -, h, -, ha, hh, hrun⟩ := (hdirected ⟨0, -1, 0⟩).run
    rw [hbefore] at ha
    rw [hpast _ (by norm_num)] at hh
    rw [hrun haway, ← Except.ok.inj ha, ← Except.ok.inj hh, hheading, hslip, zero_sub,
      neg_div, div_self hpos.ne']
    norm_num
  have hahead : value ⟨0, 3, 0⟩ = 0 :=
    (hdirected _).eq_zero_of_clamp ((hpast _ (by norm_num)).trans (hpast _ (by norm_num)).symm)
  have hepicenter : value ⟨360, 2, 0⟩ = 0 :=
    (hdirected _).eq_zero_of_place (Longitude.sameMeridian_iff.mpr ⟨1, by norm_num⟩) rfl
  have hlist : s.toSurface.directivity ⟨0, 2, 5⟩ 0
      (.ofPoints [⟨0, -1, 0⟩, ⟨0, 3, 0⟩, ⟨360, 2, 0⟩]) = .ok [1, 0, 0] := by
    rw [hvalues, Mesh.points_ofPoints]
    simp only [List.map_cons, List.map_nil, hbehind, hahead, hepicenter]
  refine ⟨s, _, hs, hpos, rfl, hlist, ?_⟩
  have hreversed := hhalves 1 (.ofPoints [⟨0, -1, 0⟩, ⟨0, 3, 0⟩, ⟨360, 2, 0⟩])
  rw [hlist, Int.cast_one, mul_one, zero_add] at hreversed
  exact hreversed

end Plane

end HazardReach
