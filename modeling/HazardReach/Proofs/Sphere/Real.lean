import HazardReach.Proofs.Exact
import HazardReach.Sphere.Point
import Mathlib.Analysis.SpecialFunctions.Complex.Arg
import Mathlib.Analysis.SpecialFunctions.Trigonometric.Bounds
import Mathlib.Analysis.SpecialFunctions.Trigonometric.Inverse
import Mathlib.Analysis.Real.Pi.Bounds

/-! The sphere over the real numbers. -/
namespace HazardReach

noncomputable instance realTrig : Trig ℝ where
  pi := Real.pi
  sin := Real.sin
  cos := Real.cos
  asin := Real.arcsin
  atan2 y x := Complex.arg ⟨x, y⟩
  sqrt := Real.sqrt
  hypot x y := Real.sqrt (x * x + y * y)

theorem le_hypot (a b : ℝ) : a ≤ Trig.hypot a b := by
  change a ≤ Real.sqrt (a * a + b * b)
  apply Real.le_sqrt_of_sq_le
  nlinarith [mul_self_nonneg b]

namespace Sphere

theorem kmPerDegree_pos : 0 < (kmPerDegree : ℝ) := by
  change 0 < 6371 * Real.pi / 180
  positivity

theorem cos_toRadians_nonneg {lat : ℝ} (h : |lat| ≤ 90) :
    0 ≤ Trig.cos (Trig.toRadians lat) := by
  have hpi := Real.pi_pos
  have hlat := abs_le.mp h
  change 0 ≤ Real.cos (lat * (Real.pi / 180))
  apply Real.cos_nonneg_of_neg_pi_div_two_le_of_le
  · nlinarith [hlat.1]
  · nlinarith [hlat.2]

theorem cos_toRadians_pos {lat : ℝ} (h : |lat| < 90) : 0 < Trig.cos (Trig.toRadians lat) := by
  have hpi := Real.pi_pos
  have hlat := abs_lt.mp h
  change 0 < Real.cos (lat * (Real.pi / 180))
  apply Real.cos_pos_of_mem_Ioo
  constructor
  · nlinarith [hlat.1]
  · nlinarith [hlat.2]

theorem cos_toRadians_eq_sin (lat : ℝ) :
    Trig.cos (Trig.toRadians lat) = Real.sin ((90 - lat) * (Real.pi / 180)) := by
  change Real.cos (lat * (Real.pi / 180)) = _
  rw [← Real.sin_pi_div_two_sub]
  congr 1
  ring

theorem distance_same_lat (lon lon' : ℝ) {lat : ℝ} (h : |lat| ≤ 90) :
    distance lon lat lon' lat = 2 * 6371 * Real.arcsin (min (Trig.cos (Trig.toRadians lat) *
      |Real.sin ((lon - lon') * (Real.pi / 360))|) 1) := by
  have hcos := cos_toRadians_nonneg h
  have hdlat : (Trig.toRadians lat - Trig.toRadians lat) / 2 = 0 := by ring
  have hdlon : (lon * (Real.pi / 180) - lon' * (Real.pi / 180)) / 2 =
      (lon - lon') * (Real.pi / 360) := by
    ring
  change 2 * 6371 * Real.arcsin (min (Real.sqrt (
    Real.sin ((Trig.toRadians lat - Trig.toRadians lat) / 2) *
      Real.sin ((Trig.toRadians lat - Trig.toRadians lat) / 2) +
    Trig.cos (Trig.toRadians lat) * Trig.cos (Trig.toRadians lat) *
      (Real.sin ((lon * (Real.pi / 180) - lon' * (Real.pi / 180)) / 2) *
        Real.sin ((lon * (Real.pi / 180) - lon' * (Real.pi / 180)) / 2)))) 1) = _
  rw [hdlat, hdlon, Real.sin_zero, zero_mul, zero_add,
    Real.sqrt_mul (mul_self_nonneg _), Real.sqrt_mul_self hcos, Real.sqrt_mul_self_eq_abs]

theorem distance_nonneg (lon lat lon' lat' : ℝ) : 0 ≤ distance lon lat lon' lat' := by
  change 0 ≤ 2 * 6371 * Real.arcsin (min (Real.sqrt _) 1)
  have harc := Real.arcsin_nonneg.mpr (le_min (Real.sqrt_nonneg (square (Trig.sin
    ((Trig.toRadians lat - Trig.toRadians lat') / 2)) + Trig.cos (Trig.toRadians lat) *
      Trig.cos (Trig.toRadians lat') * square (Trig.sin
        ((Trig.toRadians lon - Trig.toRadians lon') / 2)))) zero_le_one)
  positivity

theorem distance_across_pole (lon : ℝ) {lat : ℝ} (hlow : 0 ≤ lat) (hhigh : lat ≤ 90) :
    distance lon lat (lon + 180) lat = 2 * 6371 * ((90 - lat) * (Real.pi / 180)) := by
  have hpi := Real.pi_pos
  have hhalf : (lon - (lon + 180)) * (Real.pi / 360) = -(Real.pi / 2) := by ring
  rw [distance_same_lat _ _ (abs_le.mpr ⟨by linarith, hhigh⟩), hhalf, Real.sin_neg,
    Real.sin_pi_div_two, abs_neg, abs_one, mul_one, cos_toRadians_eq_sin,
    min_eq_left (Real.sin_le_one _), Real.arcsin_sin]
  · nlinarith
  · nlinarith

theorem lt_cos_toRadians {lat : ℝ} (hlow : 89 ≤ lat) (hhigh : lat < 90) :
    (90 - lat) / 60 < Trig.cos (Trig.toRadians lat) := by
  have hpi := Real.pi_gt_d2
  have hpi' := Real.pi_le_four
  rw [cos_toRadians_eq_sin]
  have hlower : (90 - lat) * (3.14 / 180) ≤ (90 - lat) * (Real.pi / 180) := by
    apply mul_le_mul_of_nonneg_left <;> linarith
  have hupper : (90 - lat) * (Real.pi / 180) ≤ 1 / 45 := by
    nlinarith
  generalize (90 - lat) * (Real.pi / 180) = y at hlower hupper
  have hpos : 0 < y := by linarith
  have hcube : y ^ 3 ≤ y * (1 / 45) ^ 2 := by
    have hsquare : y ^ 2 ≤ (1 / 45) ^ 2 := by nlinarith
    nlinarith
  have hsin := Real.sin_gt_sub_cube hpos
  linarith

end Sphere

end HazardReach
