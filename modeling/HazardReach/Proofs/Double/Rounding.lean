import HazardReach.Proofs.Double

/-! How doubles are rounded. Every finite double is a whole number of the smallest one. A whole
number is rounded by its leading 53 bits, a half to even, and packed into a magnitude: magnitudes
follow each other through all exponents, so that rounding keeps the order of whole numbers, and it
leaves alone those that are doubles already. -/
namespace HazardReach.Double

open Float.Model (UnpackedFloat Format)
open Float.Model.UnpackedFloat

/-- The whole number nearest to `n / 2 ^ k`, and of two as near the even one. -/
def halfEven (n k : Nat) : Nat :=
  if 2 * (n % 2 ^ k) < 2 ^ k then n / 2 ^ k
  else if 2 * (n % 2 ^ k) = 2 ^ k then n / 2 ^ k + n / 2 ^ k % 2
  else n / 2 ^ k + 1

theorem halfEven_zero (n : Nat) : halfEven n 0 = n := by
  simp [halfEven, Nat.mod_one]

theorem le_halfEven (n k : Nat) : n / 2 ^ k ≤ halfEven n k := by
  unfold halfEven
  split_ifs <;> omega

theorem halfEven_le (n k : Nat) : halfEven n k ≤ n / 2 ^ k + 1 := by
  unfold halfEven
  split_ifs <;> omega

theorem halfEven_mono (k : Nat) : Monotone (halfEven · k) := by
  intro n n' h
  dsimp only
  rcases (Nat.div_le_div_right h : n / 2 ^ k ≤ n' / 2 ^ k).lt_or_eq with hlt | heq
  · calc
      halfEven n k ≤ n / 2 ^ k + 1 := halfEven_le n k
      _ ≤ n' / 2 ^ k := hlt
      _ ≤ halfEven n' k := le_halfEven n' k
  · have hmod : n % 2 ^ k ≤ n' % 2 ^ k := by
      have hn := Nat.div_add_mod n (2 ^ k)
      have hn' := Nat.div_add_mod n' (2 ^ k)
      rw [heq] at hn
      omega
    unfold halfEven
    rw [heq]
    split_ifs <;> omega

theorem halfEven_mul (n i c : Nat) : halfEven (n * 2 ^ i) (c + i) = halfEven n c := by
  have hpos : 0 < 2 ^ i := Nat.two_pow_pos i
  have hdiv : n * 2 ^ i / 2 ^ (c + i) = n / 2 ^ c := by
    rw [Nat.pow_add, Nat.mul_div_mul_right _ _ hpos]
  have hmod : n * 2 ^ i % 2 ^ (c + i) = n % 2 ^ c * 2 ^ i := by
    rw [Nat.pow_add, Nat.mul_mod_mul_right]
  unfold halfEven
  rw [hdiv, hmod, ← Nat.mul_assoc, Nat.pow_add]
  simp only [Nat.mul_lt_mul_right hpos, Nat.mul_left_inj hpos.ne']

/-- Shifted to the right, a mantissa keeps its whole part, whether the rest is half of the last
place or more, and whether it differs from none and from half. -/
theorem shift_eq (n k : Nat) :
    ExtendedMantissa.mk n false false >>> k =
      ⟨n / 2 ^ k, decide (2 ^ k ≤ 2 * (n % 2 ^ k)), decide (2 * (n % 2 ^ k) % 2 ^ k ≠ 0)⟩ := by
  induction k with
  | zero => simp [HShiftRight.hShiftRight, Nat.repeat, Nat.mod_one]
  | succ k ih =>
    have hstep : ExtendedMantissa.mk n false false >>> (k + 1) =
        (ExtendedMantissa.mk n false false >>> k).shiftRightOne := rfl
    have hpos : 0 < 2 ^ k := Nat.two_pow_pos k
    have hlt : n % 2 ^ k < 2 ^ k := Nat.mod_lt _ hpos
    have hmod : n % 2 ^ (k + 1) = n % 2 ^ k + 2 ^ k * (n / 2 ^ k % 2) := Nat.mod_pow_succ
    rw [hstep, ih, ExtendedMantissa.shiftRightOne]
    congr 1
    · rw [Nat.div_div_eq_div_mul, Nat.pow_succ]
    · rw [hmod, Nat.pow_succ]
      rcases Nat.mod_two_eq_zero_or_one (n / 2 ^ k) with hbit | hbit
      · rw [hbit, eq_comm]
        exact decide_eq_false (by omega)
      · rw [hbit, eq_comm]
        exact decide_eq_true (by omega)
    · have hsticky : 2 * (n % 2 ^ (k + 1)) % 2 ^ (k + 1) = 2 * (n % 2 ^ k) := by
        rw [hmod, Nat.pow_succ, Nat.mul_comm (2 ^ k) 2, Nat.mul_mod_mul_left,
          Nat.add_mul_mod_self_left, Nat.mod_mod]
      rw [hsticky, Bool.eq_iff_iff, Bool.or_eq_true, decide_eq_true_eq, decide_eq_true_eq,
        decide_eq_true_eq]
      by_cases hhalf : 2 ^ k ≤ 2 * (n % 2 ^ k)
      · exact iff_of_true (.inl hhalf) (by omega)
      · rw [Nat.mod_eq_of_lt (not_le.mp hhalf)]
        exact or_iff_right hhalf

theorem roundedMantissa_shift (n k : Nat) :
    (ExtendedMantissa.mk n false false >>> k).roundedMantissa = halfEven n k := by
  have hlt : n % 2 ^ k < 2 ^ k := Nat.mod_lt _ (Nat.two_pow_pos k)
  rw [shift_eq, halfEven]
  by_cases hhalf : 2 ^ k ≤ 2 * (n % 2 ^ k)
  · rw [if_neg (not_lt.mpr hhalf)]
    have hrest : 2 * (n % 2 ^ k) % 2 ^ k = 2 * (n % 2 ^ k) - 2 ^ k := by
      rw [Nat.mod_eq_sub_mod hhalf, Nat.mod_eq_of_lt (by omega)]
    by_cases hexact : 2 * (n % 2 ^ k) = 2 ^ k
    · rw [if_pos hexact, decide_eq_true hhalf, decide_eq_false (by omega)]
      rfl
    · rw [if_neg hexact, decide_eq_true hhalf, decide_eq_true (by omega)]
      rfl
  · rw [if_pos (not_le.mp hhalf), decide_eq_false hhalf]
    cases decide (2 * (n % 2 ^ k) % 2 ^ k ≠ 0) <;> rfl

/-- Doubles near `n` times the smallest one are spaced by this power of two. -/
def spacing (n : Nat) : Nat := n.log2 - 52

theorem lt_spacing (n : Nat) : n / 2 ^ spacing n < 2 ^ 53 := by
  rw [Nat.div_lt_iff_lt_mul (Nat.two_pow_pos _), ← Nat.pow_add]
  calc
    n < 2 ^ (n.log2 + 1) := Nat.lt_log2_self
    _ ≤ 2 ^ (53 + spacing n) := Nat.pow_le_pow_right (by decide) (by unfold spacing; omega)

theorem le_spacing {n : Nat} (h : spacing n ≠ 0) : 2 ^ 52 ≤ n / 2 ^ spacing n := by
  unfold spacing at h
  have hne : n ≠ 0 := by
    rintro rfl
    exact h rfl
  rw [Nat.le_div_iff_mul_le (Nat.two_pow_pos _), ← Nat.pow_add]
  calc
    2 ^ (52 + spacing n) = 2 ^ n.log2 := by
      congr 1
      unfold spacing
      omega
    _ ≤ n := Nat.log2_self_le hne

theorem spacing_mono : Monotone spacing := by
  intro n n' h
  unfold spacing
  rcases eq_or_ne n 0 with rfl | hne
  · exact Nat.zero_le _
  · have hlog : n.log2 ≤ n'.log2 := (Nat.le_log2 (by omega)).mpr ((Nat.log2_self_le hne).trans h)
    exact Nat.sub_le_sub_right hlog 52

/-- The magnitude of the double nearest to `n` times the smallest one, without an end to them. -/
def pattern (n : Nat) : Nat := spacing n * 2 ^ 52 + halfEven n (spacing n)

theorem pattern_mono : Monotone pattern := by
  intro n n' h
  unfold pattern
  rcases (spacing_mono h).lt_or_eq with hlt | heq
  · have hhigh := halfEven_le n (spacing n)
    have hhigh' := lt_spacing n
    have hlow := le_halfEven n' (spacing n')
    have hlow' := le_spacing (n := n') (by omega)
    omega
  · have hmono : halfEven n (spacing n) ≤ halfEven n' (spacing n) := halfEven_mono _ h
    rw [← heq]
    omega

def rounded (n : Nat) : Nat := min (pattern n) beyond

theorem rounded_le (n : Nat) : rounded n ≤ beyond := min_le_right _ _

theorem rounded_mono : Monotone rounded := fun _ _ h => min_le_min_right _ (pattern_mono h)

theorem toNat_packComponents (s : Sign) (e : BitVec 11) (m : BitVec 52) :
    (packComponents .binary64 s e m).toNat =
      s.toBitVec.toNat * 2 ^ 63 + e.toNat * 2 ^ 52 + m.toNat := by
  unfold packComponents
  change ((s.toBitVec ++ e) ++ m).toNat = _
  rw [BitVec.toNat_append, BitVec.toNat_append, ← Nat.shiftLeft_add_eq_or_of_lt m.isLt,
    ← Nat.shiftLeft_add_eq_or_of_lt e.isLt, Nat.shiftLeft_eq, Nat.shiftLeft_eq]
  omega

/-- The pattern of a signed magnitude. -/
def coded (negative : Bool) (magnitude : Nat) : Nat :=
  (sign negative).toBitVec.toNat * 2 ^ 63 + magnitude

theorem value_of_bits {x : Float} {n : Bool} {m : Nat} (h : bits x = coded n m) (hm : m ≤ beyond) :
    value x = signed n m := by
  unfold beyond at hm
  have hparts : decide (2 ^ 63 ≤ bits x) = n ∧ bits x % 2 ^ 63 = m := by
    rw [h]
    cases n with
    | false =>
      change decide (2 ^ 63 ≤ 0 * 2 ^ 63 + m) = false ∧ (0 * 2 ^ 63 + m) % 2 ^ 63 = m
      exact ⟨decide_eq_false (by omega), by omega⟩
    | true =>
      change decide (2 ^ 63 ≤ 1 * 2 ^ 63 + m) = true ∧ (1 * 2 ^ 63 + m) % 2 ^ 63 = m
      exact ⟨decide_eq_true (by omega), by omega⟩
  unfold value
  rw [hparts.1, hparts.2]

theorem bits_eq_coded (x : Float) :
    bits x = coded (decide (2 ^ 63 ≤ bits x)) (bits x % 2 ^ 63) := by
  have hlt : bits x < 2 ^ 64 := UInt64.toNat_lt _
  by_cases h : 2 ^ 63 ≤ bits x
  · rw [decide_eq_true h]
    change _ = 1 * 2 ^ 63 + _
    omega
  · rw [decide_eq_false h]
    change _ = 0 * 2 ^ 63 + _
    omega

theorem bits_pack_finite (n : Bool) {r k : Nat} (hpos : 0 < r) (hlt : r < 2 ^ 53)
    (hnormal : k ≠ 0 → 2 ^ 52 ≤ r) :
    bits (pack (.finite (sign n) r (k - 1074) hpos)) = coded n (min (k * 2 ^ 52 + r) beyond) := by
  change (UnpackedFloat.pack .binary64 _).toNat = _
  have hbiased : ((k : Int) - 1074 + (Format.binary64.exponentBias : Int) +
      (Format.binary64.mantissaBitsWithoutImplicit : Int)).toNat = k + 1 := by
    change ((k : Int) - 1074 + 1023 + 52).toNat = k + 1
    omega
  by_cases hbig : 2 ^ 11 ≤ k + 1 + 1
  · have hmin : min (k * 2 ^ 52 + r) beyond = beyond := by
      unfold beyond
      have hleading := hnormal (by omega)
      omega
    unfold UnpackedFloat.pack
    dsimp only
    rw [hmin, hbiased, if_pos hbig]
    cases n <;> rfl
  · have hsmall : k * 2 ^ 52 + r < beyond := by
      unfold beyond
      omega
    have hmin : min (k * 2 ^ 52 + r) beyond = k * 2 ^ 52 + r := min_eq_left hsmall.le
    have hleading : r.log2 + 1 = Format.binary64.mantissaBits ↔ 2 ^ 52 ≤ r := by
      change r.log2 + 1 = 52 + 1 ↔ _
      rw [Nat.add_right_cancel_iff, Nat.log2_eq_iff hpos.ne']
      exact and_iff_left hlt
    unfold UnpackedFloat.pack coded
    dsimp only
    rw [hmin, hbiased, if_neg hbig]
    unfold beyond at hsmall
    by_cases hnormal' : 2 ^ 52 ≤ r
    · rw [if_pos (hleading.mpr hnormal'), toNat_packComponents, BitVec.toNat_ofNat,
        BitVec.toNat_ofNat]
      omega
    · rw [if_neg (hleading.not.mpr hnormal'), toNat_packComponents, BitVec.toNat_ofNat,
        BitVec.toNat_ofNat]
      have hk : k = 0 := by
        by_contra hk
        exact hnormal' (hnormal hk)
      omega

theorem shiftToTargetExponent_eq (m i : Nat) :
    shiftToTargetExponent .binary64 m (i - 1074) .exact =
      (ExtendedMantissa.mk m false false >>> (m.log2 + i - 52 - i),
        ((i + (m.log2 + i - 52 - i) : Nat) : Int) - 1074) := by
  have hmin : Format.binary64.minExponent = -1074 := rfl
  have hbits : (Format.binary64.mantissaBits : Int) = 53 := rfl
  have hshift : (Format.binary64.targetExponent (Float.Model.totalExponent m (i - 1074)) -
      (i - 1074)).toNat = m.log2 + i - 52 - i := by
    unfold Format.targetExponent Float.Model.totalExponent
    rw [hmin, hbits]
    omega
  unfold shiftToTargetExponent shiftToExponent
  dsimp only
  rw [hshift]
  congr 1
  push_cast
  ring

private theorem log2_mul_two_pow {m : Nat} (hm : m ≠ 0) (i : Nat) :
    (m * 2 ^ i).log2 = m.log2 + i := by
  have hpos : 0 < 2 ^ i := Nat.two_pow_pos i
  rw [Nat.log2_eq_iff (Nat.mul_ne_zero hm hpos.ne'), Nat.pow_add, Nat.add_right_comm, Nat.pow_add,
    Nat.mul_le_mul_right_iff hpos, Nat.mul_lt_mul_right hpos]
  exact ⟨Nat.log2_self_le hm, Nat.lt_log2_self⟩

theorem roundWithAccuracy_eq (s : Sign) {m i : Nat} (hm : 0 < m) (hi : i ≤ spacing (m * 2 ^ i)) :
    ∃ (r k : Nat) (hr : 0 < r), roundWithAccuracy .binary64 s m (i - 1074) .exact =
        .finite s r (k - 1074) hr ∧
      r < 2 ^ 53 ∧ (k ≠ 0 → 2 ^ 52 ≤ r) ∧ k * 2 ^ 52 + r = pattern (m * 2 ^ i) := by
  have hlog : (m * 2 ^ i).log2 = m.log2 + i := log2_mul_two_pow hm.ne' i
  have hspacing : spacing (m * 2 ^ i) = m.log2 + i - 52 := by rw [spacing, hlog]
  have hfirst : (ExtendedMantissa.mk m false false >>> (m.log2 + i - 52 - i)).roundedMantissa =
      halfEven (m * 2 ^ i) (spacing (m * 2 ^ i)) := by
    rw [roundedMantissa_shift, ← halfEven_mul m i, ← hspacing, Nat.sub_add_cancel hi]
  have hexponent : i + (m.log2 + i - 52 - i) = spacing (m * 2 ^ i) := by omega
  have hhigh := halfEven_le (m * 2 ^ i) (spacing (m * 2 ^ i))
  have hhigh' := lt_spacing (m * 2 ^ i)
  have hlow := le_halfEven (m * 2 ^ i) (spacing (m * 2 ^ i))
  have hlow' : spacing (m * 2 ^ i) ≠ 0 → _ := le_spacing
  generalize hr : halfEven (m * 2 ^ i) (spacing (m * 2 ^ i)) = r at *
  generalize hk : spacing (m * 2 ^ i) = k at *
  have hpos : 0 < r := by
    by_cases hzero : k = 0
    · rw [hzero, halfEven_zero] at hr
      rw [← hr]
      exact Nat.mul_pos hm (Nat.two_pow_pos i)
    · have := hlow' hzero
      omega
  unfold roundWithAccuracy
  rw [shiftToTargetExponent_eq]
  dsimp only
  rw [hfirst, hexponent]
  rcases (show r ≤ 2 ^ 53 by omega).lt_or_eq with hlt | heq
  · have hlog : r.log2 < 53 := (Nat.log2_lt hpos.ne').mpr hlt
    have hsecond : shiftToTargetExponent .binary64 r (k - 1074) .exact =
        (⟨r, false, false⟩, (k : Int) - 1074) := by
      rw [shiftToTargetExponent_eq, show r.log2 + k - 52 - k = 0 by omega]
      rfl
    rw [hsecond]
    refine ⟨r, k, hpos, dif_neg hpos.ne', hlt, fun hne => (hlow' hne).trans hlow, ?_⟩
    rw [pattern, hk, hr]
  · -- Rounded up to the next power of two, the mantissa is shifted once more.
    have hsecond : shiftToTargetExponent .binary64 r (k - 1074) .exact =
        (⟨2 ^ 52, false, false⟩, ((k + 1 : Nat) : Int) - 1074) := by
      rw [shiftToTargetExponent_eq, heq, Nat.log2_two_pow, show 53 + k - 52 - k = 1 by omega]
      rfl
    rw [hsecond]
    refine ⟨2 ^ 52, k + 1, by decide, dif_neg (show 2 ^ 52 ≠ 0 by decide), by decide,
      fun _ => le_rfl, ?_⟩
    rw [pattern, hk, hr, heq]
    omega

theorem round_eq (s : Sign) {m : Nat} (hm : 0 < m) (d : Nat) :
    UnpackedFloat.round .binary64 s m (d - 1074) =
      roundWithAccuracy .binary64 s (m * 2 ^ (d - spacing (m * 2 ^ d)))
        ((d - (d - spacing (m * 2 ^ d)) : Nat) - 1074) .exact := by
  have hmin : Format.binary64.minExponent = -1074 := rfl
  have hbits : (Format.binary64.mantissaBits : Int) = 53 := rfl
  have hshift : ((d : Int) - 1074 - Format.binary64.targetExponent
      (Float.Model.totalExponent m (d - 1074))).toNat = d - spacing (m * 2 ^ d) := by
    unfold Format.targetExponent Float.Model.totalExponent spacing
    rw [hmin, hbits, log2_mul_two_pow hm.ne']
    omega
  unfold UnpackedFloat.round decreaseExponent
  dsimp only
  rw [hshift, Nat.shiftLeft_eq]
  congr 1
  omega

/-- The double nearest to a whole number of the smallest ones. -/
theorem bits_pack_round (n : Bool) {m : Nat} (hm : 0 < m) (d : Nat) :
    bits (pack (.round .binary64 (sign n) m (d - 1074))) = coded n (rounded (m * 2 ^ d)) := by
  generalize hj : d - spacing (m * 2 ^ d) = j
  have hsame : m * 2 ^ j * 2 ^ (d - j) = m * 2 ^ d := by
    rw [Nat.mul_assoc, ← Nat.pow_add, show j + (d - j) = d by omega]
  have hi : d - j ≤ spacing (m * 2 ^ j * 2 ^ (d - j)) := by
    rw [hsame]
    omega
  obtain ⟨r, k, hr, hround, hlt, hnormal, hpattern⟩ :=
    roundWithAccuracy_eq (sign n) (Nat.mul_pos hm (Nat.two_pow_pos j)) hi
  rw [round_eq _ hm, hj, hround, bits_pack_finite n hr hlt hnormal, hpattern, hsame]
  rfl

/-- A magnitude as a whole number of the smallest one. -/
def scaled (magnitude : Nat) : Nat :=
  if magnitude < 2 ^ 52 then magnitude
  else (2 ^ 52 + magnitude % 2 ^ 52) * 2 ^ (magnitude / 2 ^ 52 - 1)

theorem pattern_scaled (m : Nat) : pattern (scaled m) = m := by
  unfold scaled
  split
  · rename_i hlt
    have hspacing : spacing m = 0 := by
      rcases eq_or_ne m 0 with rfl | hne
      · rfl
      · have hlog : m.log2 < 52 := (Nat.log2_lt hne).mpr hlt
        unfold spacing
        omega
    rw [pattern, hspacing, halfEven_zero, Nat.zero_mul, Nat.zero_add]
  · have hlog : (2 ^ 52 + m % 2 ^ 52).log2 = 52 :=
      (Nat.log2_eq_iff (by omega)).mpr ⟨by omega, by omega⟩
    have hspacing : spacing ((2 ^ 52 + m % 2 ^ 52) * 2 ^ (m / 2 ^ 52 - 1)) = m / 2 ^ 52 - 1 := by
      rw [spacing, log2_mul_two_pow (by omega), hlog, Nat.add_sub_cancel_left]
    have hrounded := halfEven_mul (2 ^ 52 + m % 2 ^ 52) (m / 2 ^ 52 - 1) 0
    rw [Nat.zero_add, halfEven_zero] at hrounded
    rw [pattern, hspacing, hrounded]
    omega

theorem scaled_zero : scaled 0 = 0 := rfl

theorem rounded_zero : rounded 0 = 0 := by
  have hpattern := pattern_scaled 0
  rw [scaled_zero] at hpattern
  rw [rounded, hpattern, Nat.zero_min]

theorem rounded_scaled {m : Nat} (h : m ≤ beyond) : rounded (scaled m) = m := by
  rw [rounded, pattern_scaled, min_eq_left h]

theorem scaled_strictMono : StrictMono scaled := by
  intro m m' h
  by_contra hle
  have hpattern := pattern_mono (not_lt.mp hle)
  rw [pattern_scaled, pattern_scaled] at hpattern
  omega

end HazardReach.Double
