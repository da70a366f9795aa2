import HazardReach.Proofs.Longitude
import HazardReach.Proofs.Sphere.Real
import HazardReach.Site.Basic

/-! Longitudes that are whole turns apart. They name one meridian, and no distance tells them apart:
half a turn is left under the sine of the haversine formula, which changes its sign only. Between
points of one meridian the formula measures an arc, and the way is due north or due south. -/
namespace HazardReach

namespace Sphere

theorem square_sin_add_turns (x : ℝ) (turns : ℤ) :
    square (Real.sin (x + turns * Real.pi)) = square (Real.sin x) := by
  have hsign : ((-1 : ℝ) ^ turns) * (-1) ^ turns = 1 := by
    rw [← mul_zpow]
    simp
  unfold square
  rw [Real.sin_add_int_mul_pi, mul_mul_mul_comm, hsign, one_mul]

theorem square_sin_neg (x : ℝ) : square (Real.sin (-x)) = square (Real.sin x) := by
  unfold square
  rw [Real.sin_neg, neg_mul_neg]

theorem distance_eq (lon lat lon' lat' : ℝ) :
    distance lon lat lon' lat' = 2 * 6371 * Real.arcsin (min (Real.sqrt (
      square (Real.sin ((lat - lat') * (Real.pi / 360))) +
        Trig.cos (Trig.toRadians lat) * Trig.cos (Trig.toRadians lat') *
          square (Real.sin ((lon - lon') * (Real.pi / 360))))) 1) := by
  have hhalf (x y : ℝ) :
      (Trig.toRadians x - Trig.toRadians y) / 2 = (x - y) * (Real.pi / 360) := by
    change (x * (Real.pi / 180) - y * (Real.pi / 180)) / 2 = _
    ring
  rw [← hhalf, ← hhalf]
  rfl

theorem distance_comm (lon lat lon' lat' : ℝ) :
    distance lon lat lon' lat' = distance lon' lat' lon lat := by
  have hneg (x y : ℝ) : (x - y) * (Real.pi / 360) = -((y - x) * (Real.pi / 360)) := by ring
  rw [distance_eq, distance_eq, hneg lat, hneg lon, square_sin_neg, square_sin_neg,
    mul_comm (Trig.cos (Trig.toRadians lat))]

theorem distance_refl (lon lat : ℝ) : distance lon lat lon lat = 0 := by
  simp [distance_eq, square]

theorem distance_same_lon (lon : ℝ) {lat lat' : ℝ} (h : |lat - lat'| ≤ 180) :
    distance lon lat lon lat' = 6371 * (|lat - lat'| * (Real.pi / 180)) := by
  have hpi := Real.pi_pos
  have hlow : 0 ≤ |lat - lat'| * (Real.pi / 360) := by positivity
  have hhigh : |lat - lat'| * (Real.pi / 360) ≤ Real.pi / 2 := by nlinarith
  have hsquare : square (Real.sin ((lat - lat') * (Real.pi / 360))) =
      square (Real.sin (|lat - lat'| * (Real.pi / 360))) := by
    rcases abs_choice (lat - lat') with habs | habs
    · rw [habs]
    · rw [habs, neg_mul, square_sin_neg]
  have hroot : Real.sqrt (square (Real.sin ((lat - lat') * (Real.pi / 360)))) =
      Real.sin (|lat - lat'| * (Real.pi / 360)) := by
    rw [hsquare]
    exact Real.sqrt_mul_self (Real.sin_nonneg_of_nonneg_of_le_pi hlow (by linarith))
  have hlon : square (Real.sin ((lon - lon) * (Real.pi / 360))) = 0 := by simp [square]
  rw [distance_eq, hlon, mul_zero, add_zero, hroot, min_eq_left (Real.sin_le_one _),
    Real.arcsin_sin (by linarith) hhigh]
  ring

theorem bearing_same_lon (lon : ℝ) {lat lat' : ℝ} (h : |lat' - lat| < 180) :
    bearing lon lat lon lat' = if lat' < lat then 180 else 0 := by
  have hpi := Real.pi_pos
  obtain ⟨hfar, hnear⟩ := abs_lt.mp h
  have heast : Trig.sin (Trig.toRadians (lon - lon)) * Trig.cos (Trig.toRadians lat') = 0 := by
    change Real.sin ((lon - lon) * (Real.pi / 180)) * _ = 0
    rw [sub_self, zero_mul, Real.sin_zero, zero_mul]
  have hnorth : Trig.cos (Trig.toRadians lat) * Trig.sin (Trig.toRadians lat') -
      Trig.sin (Trig.toRadians lat) * Trig.cos (Trig.toRadians lat') *
        Trig.cos (Trig.toRadians (lon - lon)) = Real.sin ((lat' - lat) * (Real.pi / 180)) := by
    change Real.cos (lat * (Real.pi / 180)) * Real.sin (lat' * (Real.pi / 180)) -
      Real.sin (lat * (Real.pi / 180)) * Real.cos (lat' * (Real.pi / 180)) *
        Real.cos ((lon - lon) * (Real.pi / 180)) = _
    rw [sub_self, zero_mul, Real.cos_zero, sub_mul, Real.sin_sub]
    ring
  have hbearing : bearing lon lat lon lat' = Longitude.positive
      (Complex.arg (Real.sin ((lat' - lat) * (Real.pi / 180)) : ℝ) * (180 / Real.pi)) := by
    unfold bearing
    dsimp only
    rw [heast, hnorth]
    rfl
  rw [hbearing]
  split_ifs with hsouth
  · have hsin : Real.sin ((lat' - lat) * (Real.pi / 180)) < 0 := by
      apply Real.sin_neg_of_neg_of_neg_pi_lt
      · nlinarith
      · nlinarith
    rw [Complex.arg_ofReal_of_neg hsin, mul_div_cancel₀ _ hpi.ne',
      Longitude.positive_of_nonneg (by norm_num) (by norm_num)]
  · have hsin : 0 ≤ Real.sin ((lat' - lat) * (Real.pi / 180)) := by
      apply Real.sin_nonneg_of_nonneg_of_le_pi
      · nlinarith
      · nlinarith
    rw [Complex.arg_ofReal_of_nonneg hsin, zero_mul, Longitude.positive_zero]

theorem distance_turns (lon lat lon' lat' : ℝ) (turns turns' : ℤ) :
    distance (lon + 360 * turns) lat (lon' + 360 * turns') lat' = distance lon lat lon' lat' := by
  have hhalf : (lon + 360 * turns - (lon' + 360 * turns')) * (Real.pi / 360) =
      (lon - lon') * (Real.pi / 360) + (turns - turns' : ℤ) * Real.pi := by
    push_cast
    ring
  rw [distance_eq, distance_eq, hhalf, square_sin_add_turns]

end Sphere

namespace Point

/-- One place, whichever longitudes of its meridian name it. -/
structure SamePlace (p q : Point ℝ) : Prop where
  lon : Longitude.SameMeridian p.lon q.lon
  lat : p.lat = q.lat
  depth : p.depth = q.depth

variable {p p' q q' : Point ℝ}

theorem epicentral_congr (hp : p.SamePlace p') (hq : q.SamePlace q') :
    p.epicentral q = p'.epicentral q' := by
  obtain ⟨turns, hlon⟩ := Longitude.sameMeridian_iff.mp hp.lon
  obtain ⟨turns', hlon'⟩ := Longitude.sameMeridian_iff.mp hq.lon
  unfold epicentral
  rw [hlon, hlon', Sphere.distance_turns, hp.lat, hq.lat]

theorem hypocentral_congr (hp : p.SamePlace p') (hq : q.SamePlace q') :
    p.hypocentral q = p'.hypocentral q' := by
  unfold hypocentral
  rw [epicentral_congr hp hq, hp.depth, hq.depth]

end Point

structure Site.SamePlace (s t : Site ℝ) : Prop where
  id : s.id = t.id
  location : s.location.SamePlace t.location

end HazardReach
