import HazardReach.Proofs.Double.Sums
import HazardReach.Proofs.Turning

/-! Doubles turn in order. The remainder of half a turn or less by a whole one is that double, by
way of its dyadic form, so that only the turn that follows is rounded. -/
namespace HazardReach

namespace Double

open Float.Model (UnpackedFloat Format)
open Float.Model.UnpackedFloat

variable {x : Float}

theorem pack_parts (hx : x.isFinite = true) : pack (parts x) = x := by
  apply eq_of_bits_eq
  rw [bits_pack (stands x) hx, ← bits_eq_coded]

theorem splits_ofFloat (hx : x.isFinite = true) :
    (Dyadic.ofFloat x).negative = decide (2 ^ 63 ≤ bits x) ∧
      Splits (bits x % 2 ^ 63) (Dyadic.ofFloat x).mantissa (Dyadic.ofFloat x).exponent := by
  have hlt := (stands x).magnitude_lt hx
  unfold beyond at hlt
  have hfields : Dyadic.fields x =
      (decide (2 ^ 63 ≤ bits x), bits x / 2 ^ 52 % 2 ^ 11, bits x % 2 ^ 52) := rfl
  unfold Dyadic.ofFloat
  rw [hfields]
  dsimp only
  by_cases hzero : bits x / 2 ^ 52 % 2 ^ 11 = 0
  · rw [if_pos hzero]
    exact ⟨rfl, .inl ⟨by omega, by dsimp only; omega, rfl⟩⟩
  · rw [if_neg hzero]
    refine ⟨rfl, .inr ⟨by omega, by omega, ?_, ?_⟩⟩
    · change 2 ^ 52 + bits x % 2 ^ 52 = _
      omega
    · dsimp only
      omega

theorem ofBits_bits (hx : x.isFinite = true) : Float.ofBits (UInt64.ofNat (bits x)) = x := by
  change Float.ofBits (UInt64.ofNat x.toBits.toNat) = x
  rw [UInt64.ofNat_toNat]
  exact pack_parts hx

theorem normalize_eq {m : Nat} {e : Int} (h : ¬(m < Dyadic.hidden ∧ -1074 < e)) (fuel : Nat) :
    Dyadic.normalize (fuel + 1) m e = (m, e) := if_neg h

theorem toFloat_ofFloat (hx : x.isFinite = true) : (Dyadic.ofFloat x).toFloat = x := by
  obtain ⟨hnegative, hsplits⟩ := splits_ofFloat hx
  have hbits : bits x = (if 2 ^ 63 ≤ bits x then 2 ^ 63 else 0) + bits x % 2 ^ 63 := by
    have hlt : bits x < 2 ^ 64 := UInt64.toNat_lt _
    split <;> omega
  have hhidden : Dyadic.hidden = 2 ^ 52 := rfl
  have hsign : (if (Dyadic.ofFloat x).negative = true then Nat.pow 2 63 else 0) =
      if 2 ^ 63 ≤ bits x then 2 ^ 63 else 0 := by
    rw [hnegative]
    simp only [decide_eq_true_eq]
    rfl
  unfold Splits at hsplits
  unfold Dyadic.toFloat
  dsimp only
  rw [hsign, normalize_eq (by rw [hhidden]; omega) 52, hhidden]
  by_cases hzero : (Dyadic.ofFloat x).mantissa = 0
  · rw [if_pos hzero]
    have hmagnitude : bits x % 2 ^ 63 = 0 := by omega
    rw [hmagnitude] at hbits
    rw [Nat.add_zero] at hbits
    rw [← hbits, ofBits_bits hx]
  · rw [if_neg hzero]
    have hmagnitude : (if (Dyadic.ofFloat x).mantissa < 2 ^ 52 then (Dyadic.ofFloat x).mantissa
        else ((Dyadic.ofFloat x).exponent + 1075).toNat * 2 ^ 52 +
          ((Dyadic.ofFloat x).mantissa - 2 ^ 52)) = bits x % 2 ^ 63 := by
      split <;> omega
    dsimp only
    rw [show Nat.pow 2 52 = 2 ^ 52 from rfl, hmagnitude, ← hbits, ofBits_bits hx]

theorem value_half : value 180 = 4640537203540230144 ∧ value (-180) = -4640537203540230144 := by
  decide

theorem exponent_ofFloat_le (hlow : -180 ≤ x) (hhigh : x ≤ 180) (hx : x.isFinite = true) :
    (Dyadic.ofFloat x).mantissa < 2 ^ 53 ∧ (Dyadic.ofFloat x).exponent ≤ -45 := by
  have hvalue := value_half
  have hlow := value_le_of_le hlow
  have hhigh := value_le_of_le hhigh
  have hmagnitude : bits x % 2 ^ 63 = (value x).natAbs := by
    unfold value
    rw [natAbs_signed]
  have hsplits := (splits_ofFloat hx).2
  unfold Splits at hsplits
  omega

theorem tmod_below_turn {d : Dyadic} (hmantissa : d.mantissa < 2 ^ 53)
    (hexponent : d.exponent ≤ -45) : d.tmod ⟨false, 360 * 2 ^ 44, -44⟩ = d := by
  have hmin : min d.exponent (-44) = d.exponent := by omega
  have hturn : d.mantissa < 360 * 2 ^ 44 * 2 ^ (-44 - d.exponent).toNat := by
    calc
      d.mantissa < 360 * 2 ^ 44 * 2 ^ 1 := by omega
      _ ≤ 360 * 2 ^ 44 * 2 ^ (-44 - d.exponent).toNat :=
        Nat.mul_le_mul_left _ (Nat.pow_le_pow_right (by decide) (by omega))
  unfold Dyadic.tmod
  dsimp only
  rw [hmin, Int.sub_self]
  change Dyadic.mk d.negative (d.mantissa * 1 % (360 * 2 ^ 44 * 2 ^ _)) d.exponent = d
  rw [Nat.mul_one, Nat.mod_eq_of_lt hturn]

theorem tmod_turn (hlow : -180 ≤ x) (hhigh : x ≤ 180) : tmod x 360 = x := by
  have hx : x.isFinite = true := isFinite_of_le_of_le (by decide) (by decide) hlow hhigh
  have hspecial : (x.isNaN || (360 : Float).isNaN || x.isInf || (360 : Float) == 0) = false := by
    have hparts : (parts x).isNaN = false ∧ (parts x).isInf = false := by
      change (parts x).isFinite = true at hx
      cases hparts : parts x <;> rw [hparts] at hx <;> first | exact ⟨rfl, rfl⟩ | contradiction
    change ((parts x).isNaN || _ || (parts x).isInf || _) = false
    rw [hparts.1, hparts.2]
    decide
  have hturn : Dyadic.ofFloat 360 = ⟨false, 360 * 2 ^ 44, -44⟩ := by decide
  have hinf : (360 : Float).isInf = false := by decide
  have hsame : (Dyadic.ofFloat x).tmod ⟨false, 360 * 2 ^ 44, -44⟩ = Dyadic.ofFloat x := by
    obtain ⟨hmantissa, hexponent⟩ := exponent_ofFloat_le hlow hhigh hx
    exact tmod_below_turn hmantissa hexponent
  unfold tmod
  rw [hspecial, if_neg Bool.false_ne_true, hinf, if_neg Bool.false_ne_true, hturn, hsame,
    toFloat_ofFloat hx]

theorem emod_turn (hlow : -180 ≤ x) (hhigh : x ≤ 180) :
    emod x 360 = if x < 0 then x + 360 else x := by
  unfold emod
  rw [tmod_turn hlow hhigh]
  rfl

/-- The double `k` places below half a turn. -/
def inward (k : Nat) : Float := Float.ofBits (UInt64.ofNat (4640537203540230144 - k))

theorem value_inward : value (inward 2) = 4640537203540230142 ∧
    value (-inward 2) = -4640537203540230142 ∧ value (-inward 1) = -4640537203540230143 := by
  decide

/-- Nothing but the end of the frame is turned to half a turn. -/
theorem half_lt_add_turn (h : -180 < x) : 180 < x + 360 := by
  have hx : IsNumber x := (isNumber_of_compare (lt_iff_compare.mp h)).2
  have hinward : -inward 1 ≤ x := by
    rw [lt_iff_value_lt (isNumber_of_isFinite (by decide)) hx, value_half.2] at h
    rw [le_iff_value_le (isNumber_of_isFinite (by decide)) hx, value_inward.2.2]
    omega
  have hstep : (180 : Float) < -inward 1 + 360 := by decide
  have hmono : -inward 1 + 360 ≤ x + 360 := Double.add_le_add_right (by decide) hinward
  have hsum := (isNumber_of_le hmono).2
  rw [lt_iff_value_lt (isNumber_of_isFinite (by decide)) (isNumber_of_le hmono).1] at hstep
  rw [lt_iff_value_lt (isNumber_of_isFinite (by decide)) hsum]
  exact hstep.trans_le (value_le_of_le hmono)

theorem turn_le_width {west east : Float} (hwest : -180 ≤ west) (hwest' : west ≤ -180)
    (heast : 180 ≤ east) (heast' : east ≤ 180) : 360 ≤ east - west := by
  have hw : west.isFinite = true := isFinite_of_le_of_le (by decide) (by decide) hwest hwest'
  have he : east.isFinite = true := isFinite_of_le_of_le (by decide) (by decide) heast heast'
  have hwidest : (360 : Float) ≤ 180 - -180 := by decide
  exact ComparedScalar.le_trans hwidest
    (Double.sub_le_sub (by decide) he (by decide) hw heast hwest')

theorem between_of_width {west east : Float} (hwest : -180 ≤ west) (hwest' : west ≤ 180)
    (heast : -180 ≤ east) (heast' : east ≤ 180) (hwidth : 360 ≤ east - west) (hlow : -180 < x)
    (hhigh : x < 180) : west ≤ x ∧ x ≤ east := by
  have hx : IsNumber x := (isNumber_of_compare (lt_iff_compare.mp hlow)).2
  have hw : west.isFinite = true := isFinite_of_le_of_le (by decide) (by decide) hwest hwest'
  have he : east.isFinite = true := isFinite_of_le_of_le (by decide) (by decide) heast heast'
  rw [lt_iff_value_lt (isNumber_of_isFinite (by decide)) hx, value_half.2] at hlow
  rw [lt_iff_value_lt hx (isNumber_of_isFinite (by decide)), value_half.1] at hhigh
  rw [le_iff_value_le (isNumber_of_isFinite hw) hx, le_iff_value_le hx (isNumber_of_isFinite he)]
  constructor
  · by_contra h
    have hinward : -inward 2 ≤ west := by
      rw [le_iff_value_le (isNumber_of_isFinite (by decide)) (isNumber_of_isFinite hw),
        value_inward.2.1]
      omega
    have hnarrow : east - west ≤ 180 - -inward 2 :=
      Double.sub_le_sub he (by decide) hw (by decide) heast' hinward
    have hle := (value_le_of_le hwidth).trans (value_le_of_le hnarrow)
    exact absurd hle (by decide)
  · by_contra h
    have hinward : east ≤ inward 2 := by
      rw [le_iff_value_le (isNumber_of_isFinite he) (isNumber_of_isFinite (by decide)),
        value_inward.1]
      omega
    have hnarrow : east - west ≤ inward 2 - -180 :=
      Double.sub_le_sub he (by decide) hw (by decide) hinward hwest
    have hle := (value_le_of_le hwidth).trans (value_le_of_le hnarrow)
    exact absurd hle (by decide)

end Double

open Double

/-- Rounding keeps turns in order. -/
instance doubleTurning : TurningScalar Float where
  neg_half_lt_zero := by decide
  zero_lt_half := by decide
  half_le_turn := by decide
  neg_half_add_turn := by decide
  zero_add_turn := by decide
  half_add_sub_turn := by decide +kernel
  half_sub_turn := by decide
  turn_sub_turn := by decide
  add_turn_le h := Double.add_le_add_right (by decide) h
  sub_turn_le h := Double.sub_le_sub_right (by decide) h
  half_lt_add_turn := Double.half_lt_add_turn
  emod_turn := Double.emod_turn
  turn_le_width := Double.turn_le_width
  between_of_width := Double.between_of_width

end HazardReach
