import HazardReach.Proofs.Double.Rounding

/-! Sums and differences of doubles. Each is the exact one, as a whole number of the smallest
double, rounded: what is added or taken away keeps the order, and infinities stay at the ends. -/
namespace HazardReach.Double

open Float.Model (UnpackedFloat Format)
open Float.Model.UnpackedFloat

/-- A function of magnitudes, carried to signed ones. -/
def mirrored (f : Nat → Nat) (z : Int) : Int := if z < 0 then -(f z.natAbs : Int) else f z.natAbs

theorem mirrored_signed {f : Nat → Nat} (hf : f 0 = 0) (n : Bool) (m : Nat) :
    mirrored f (signed n m) = signed n (f m) := by
  unfold mirrored
  cases n with
  | false =>
    rw [signed_false, signed_false, if_neg (by omega), Int.natAbs_natCast]
  | true =>
    rw [signed_true, signed_true, Int.natAbs_neg, Int.natAbs_natCast]
    split
    · rfl
    · have hzero : m = 0 := by omega
      rw [hzero, hf]
      rfl

theorem mirrored_mono {f : Nat → Nat} (hf : Monotone f) {z z' : Int} (h : z ≤ z') :
    mirrored f z ≤ mirrored f z' := by
  unfold mirrored
  split_ifs with hneg hneg'
  · have hle : f z'.natAbs ≤ f z.natAbs := hf (by omega)
    omega
  · omega
  · omega
  · have hle : f z.natAbs ≤ f z'.natAbs := hf (by omega)
    omega

theorem value_pack_normalize (z : Int) (i : Nat) (s : Sign) :
    value (pack (.normalize .binary64 z (i - 1074) s)) = mirrored rounded (z * 2 ^ i) := by
  have hpos : (0 : Int) < 2 ^ i := Int.pow_pos (by decide)
  unfold UnpackedFloat.normalize mirrored
  rcases lt_trichotomy z 0 with hlt | rfl | hgt
  · have hcompare : compare z 0 = .lt := compare_lt_iff_lt.mpr hlt
    have habs : (z * 2 ^ i).natAbs = (-z).toNat * 2 ^ i := by
      rw [Int.natAbs_mul, Int.natAbs_pow]
      congr 1
      omega
    rw [hcompare, if_pos (Int.mul_neg_of_neg_of_pos hlt hpos), habs]
    exact (value_of_bits (bits_pack_round true (by omega) i) (rounded_le _)).trans (signed_true _)
  · have hcompare : compare (0 : Int) 0 = .eq := rfl
    have hzero : value (pack (.zero s)) = 0 := by cases s <;> rfl
    rw [hcompare, Int.zero_mul, if_neg (lt_irrefl 0), Int.natAbs_zero, rounded_zero]
    exact hzero
  · have hcompare : compare z 0 = .gt := compare_gt_iff_gt.mpr hgt
    have habs : (z * 2 ^ i).natAbs = z.toNat * 2 ^ i := by
      rw [Int.natAbs_mul, Int.natAbs_pow]
      congr 1
      omega
    rw [hcompare, if_neg (Int.mul_pos hgt hpos).not_gt, habs]
    exact (value_of_bits (bits_pack_round false (by omega) i) (rounded_le _)).trans (signed_false _)

section Sums

variable {n n' : Bool} {m m' : Nat} {u v : UnpackedFloat}

theorem Splits.exists_scaled {mantissa : Nat} {exponent : Int} (h : Splits m mantissa exponent) :
    ∃ d : Nat, exponent = d - 1074 ∧ mantissa * 2 ^ d = scaled m := by
  unfold scaled
  rcases h with ⟨hlt, rfl, rfl⟩ | ⟨hle, -, rfl, rfl⟩
  · rw [if_pos hlt]
    exact ⟨0, rfl, Nat.mul_one _⟩
  · rw [if_neg hle.not_gt]
    exact ⟨m / 2 ^ 52 - 1, by omega, rfl⟩

theorem bits_pack_zero (n : Bool) : bits (pack (.zero (sign n))) = coded n 0 := by
  cases n <;> rfl

theorem bits_pack (h : Stands n m u) (hu : u.isFinite = true) : bits (pack u) = coded n m := by
  have hlt := h.magnitude_lt hu
  cases h with
  | notANumber hm => contradiction
  | infinity hm => contradiction
  | zero hm => rw [bits_pack_zero, hm]
  | @finite mantissa exponent hpos hm =>
    unfold Splits at hm
    obtain ⟨k, rfl⟩ : ∃ k : Nat, exponent = k - 1074 := ⟨(exponent + 1074).toNat, by omega⟩
    rw [bits_pack_finite n hpos (by omega) (by omega)]
    unfold beyond at *
    congr 1
    omega

theorem value_pack (h : Stands n m u) (hu : u.isFinite = true) : value (pack u) = signed n m :=
  value_of_bits (bits_pack h hu) (h.magnitude_lt hu).le

private theorem apply_shift (n : Bool) (k : Nat) {d i : Nat} (h : i ≤ d) :
    (sign n).apply ((k <<< (d - i) : Nat) : Int) * 2 ^ i = signed n (k * 2 ^ d) := by
  have hshift : k <<< (d - i) * 2 ^ i = k * 2 ^ d := by
    rw [Nat.shiftLeft_eq, Nat.mul_assoc, ← Nat.pow_add, Nat.sub_add_cancel h]
  rw [← hshift]
  cases n with
  | false =>
    change ((k <<< (d - i) : Nat) : Int) * 2 ^ i = ((k <<< (d - i) * 2 ^ i : Nat) : Int)
    push_cast
    rfl
  | true =>
    change -((k <<< (d - i) : Nat) : Int) * 2 ^ i = -((k <<< (d - i) * 2 ^ i : Nat) : Int)
    push_cast
    ring

/-- A sum of doubles is the exact sum, rounded. -/
theorem value_pack_add (h : Stands n m u) (h' : Stands n' m' v) (hu : u.isFinite = true)
    (hv : v.isFinite = true) :
    value (pack (.add .binary64 u v)) =
      mirrored rounded (signed n (scaled m) + signed n' (scaled m')) := by
  have hzero (n : Bool) : signed n (scaled 0) = 0 := by rw [scaled_zero, signed_zero]
  have hself {n : Bool} {m : Nat} {w : UnpackedFloat} (h : Stands n m w) (hw : w.isFinite = true) :
      mirrored rounded (signed n (scaled m)) = value (pack w) := by
    rw [mirrored_signed rounded_zero, rounded_scaled (h.magnitude_lt hw).le, value_pack h hw]
  cases h with
  | notANumber hm => contradiction
  | infinity hm => contradiction
  | zero hm =>
    rw [hm, hzero, Int.zero_add, hself h' hv]
    cases h' with
    | notANumber hm' => contradiction
    | infinity hm' => contradiction
    | zero hm' => cases n <;> cases n' <;> rfl
    | finite hpos' hm' => rfl
  | @finite mantissa exponent hpos hm =>
    cases h' with
    | notANumber hm' => contradiction
    | infinity hm' => contradiction
    | zero hm' =>
      rw [hm', hzero, Int.add_zero, hself (.finite hpos hm) hu]
      rfl
    | @finite mantissa' exponent' hpos' hm' =>
      obtain ⟨d, rfl, hd⟩ := hm.exists_scaled
      obtain ⟨d', rfl, hd'⟩ := hm'.exists_scaled
      have hmin : min ((d : Int) - 1074) (d' - 1074) = ((min d d' : Nat) : Int) - 1074 := by omega
      have hleft : ((d : Int) - 1074 - (((min d d' : Nat) : Int) - 1074)).toNat = d - min d d' := by
        omega
      have hright : ((d' : Int) - 1074 - (((min d d' : Nat) : Int) - 1074)).toNat =
          d' - min d d' := by
        omega
      unfold UnpackedFloat.add decreaseExponent
      dsimp only
      rw [hmin, hleft, hright, value_pack_normalize, Int.add_mul, apply_shift n _ (min_le_left _ _),
        apply_shift n' _ (min_le_right _ _), hd, hd']

protected theorem sub_eq_add_neg (u v : UnpackedFloat) :
    UnpackedFloat.sub .binary64 u v = .add .binary64 u v.neg := by
  cases u with
  | notANumber => cases v <;> rfl
  | infinity s => cases v <;> rfl
  | zero s => cases v <;> rfl
  | finite s k e hk =>
    cases v with
    | notANumber => rfl
    | infinity t => rfl
    | zero t => rfl
    | finite t k' e' hk' =>
      cases t with
      | positive => rfl
      | negative =>
        change normalize _ (_ - -_) _ _ = normalize _ (_ + _) _ _
        rw [Int.sub_neg]
        rfl

theorem Stands.neg (h : Stands n m u) : Stands (!n) m u.neg := by
  have hsign : -sign n = sign (!n) := by cases n <;> rfl
  cases h with
  | notANumber hm => exact .notANumber hm
  | zero hm =>
    change Stands (!n) m (.zero (-sign n))
    rw [hsign]
    exact .zero hm
  | infinity hm =>
    change Stands (!n) m (.infinity (-sign n))
    rw [hsign]
    exact .infinity hm
  | finite hpos hm =>
    change Stands (!n) m (.finite (-sign n) _ _ hpos)
    rw [hsign]
    exact .finite hpos hm

end Sums

section Monotone

variable {x y z c : Float}

/-- A finite double as a whole number of the smallest one. -/
def units (x : Float) : Int := mirrored scaled (value x)

theorem units_eq (x : Float) :
    units x = signed (decide (2 ^ 63 ≤ bits x)) (scaled (bits x % 2 ^ 63)) :=
  mirrored_signed scaled_zero _ _

theorem units_le_units (h : x ≤ y) : units x ≤ units y :=
  mirrored_mono scaled_strictMono.monotone (value_le_of_le h)

theorem value_add (hx : x.isFinite = true) (hy : y.isFinite = true) :
    value (x + y) = mirrored rounded (units x + units y) := by
  rw [units_eq, units_eq]
  exact value_pack_add (stands x) (stands y) hx hy

theorem value_sub (hx : x.isFinite = true) (hy : y.isFinite = true) :
    value (x - y) = mirrored rounded (units x - units y) := by
  have hneg (n : Bool) (m : Nat) : signed (!n) m = -signed n m := by
    cases n with
    | false => rfl
    | true => exact (Int.neg_neg _).symm
  have hfinite : (parts y).neg.isFinite = true := by
    change (parts y).isFinite = true at hy
    cases hparts : parts y <;> rw [hparts] at hy <;> first | rfl | contradiction
  change value (pack (.sub .binary64 (parts x) (parts y))) = _
  rw [Double.sub_eq_add_neg, value_pack_add (stands x) (stands y).neg hx hfinite, units_eq,
    units_eq, hneg, Int.sub_eq_add_neg]

theorem natAbs_signed (n : Bool) (m : Nat) : (signed n m).natAbs = m := by
  cases n with
  | false => rfl
  | true => exact Int.natAbs_neg _

theorem isNumber_iff : IsNumber x ↔ (value x).natAbs ≤ beyond := by
  have hx := stands x
  unfold value
  rw [natAbs_signed]
  refine ⟨hx.magnitude_le, ?_⟩
  intro h hnan
  rw [hnan] at hx
  cases hx with
  | notANumber hm =>
    unfold beyond at h
    omega

theorem natAbs_mirrored_rounded (z : Int) : (mirrored rounded z).natAbs ≤ beyond := by
  have hle := rounded_le z.natAbs
  unfold mirrored
  split_ifs <;> omega

theorem isNumber_add (hx : x.isFinite = true) (hy : y.isFinite = true) : IsNumber (x + y) := by
  rw [isNumber_iff, value_add hx hy]
  exact natAbs_mirrored_rounded _

theorem isNumber_sub (hx : x.isFinite = true) (hy : y.isFinite = true) : IsNumber (x - y) := by
  rw [isNumber_iff, value_sub hx hy]
  exact natAbs_mirrored_rounded _

protected theorem add_le_add (hx : x.isFinite = true) (hy : y.isFinite = true)
    (hz : z.isFinite = true) (hc : c.isFinite = true) (h : x ≤ y) (h' : z ≤ c) :
    x + z ≤ y + c := by
  rw [le_iff_value_le (isNumber_add hx hz) (isNumber_add hy hc), value_add hx hz, value_add hy hc]
  exact mirrored_mono rounded_mono (Int.add_le_add (units_le_units h) (units_le_units h'))

protected theorem sub_le_sub (hx : x.isFinite = true) (hy : y.isFinite = true)
    (hz : z.isFinite = true) (hc : c.isFinite = true) (h : x ≤ y) (h' : c ≤ z) :
    x - z ≤ y - c := by
  rw [le_iff_value_le (isNumber_sub hx hz) (isNumber_sub hy hc), value_sub hx hz, value_sub hy hc]
  exact mirrored_mono rounded_mono (Int.sub_le_sub (units_le_units h) (units_le_units h'))

theorem exists_eq_infinity (hx : IsNumber x) (h : ¬x.isFinite = true) :
    ∃ s, parts x = .infinity s := by
  change ¬(parts x).isFinite = true at h
  unfold IsNumber at hx
  cases hparts : parts x with
  | notANumber => exact absurd hparts hx
  | infinity s => exact ⟨s, rfl⟩
  | zero s =>
    rw [hparts] at h
    exact absurd rfl h
  | finite s k e hk =>
    rw [hparts] at h
    exact absurd rfl h

theorem add_eq_self {s : Sign} (hx : parts x = .infinity s) (hc : c.isFinite = true) :
    x + c = x := by
  have hadd : UnpackedFloat.add .binary64 (.infinity s) (parts c) = .infinity s := by
    change (parts c).isFinite = true at hc
    cases hparts : parts c <;> rw [hparts] at hc <;> first | rfl | contradiction
  apply eq_of_parts_eq
  change parts (pack (.add .binary64 (parts x) (parts c))) = _
  rw [hx, hadd]
  cases s <;> rfl

theorem sub_eq_self {s : Sign} (hx : parts x = .infinity s) (hc : c.isFinite = true) :
    x - c = x := by
  have hsub : UnpackedFloat.sub .binary64 (.infinity s) (parts c) = .infinity s := by
    change (parts c).isFinite = true at hc
    cases hparts : parts c <;> rw [hparts] at hc <;> first | rfl | contradiction
  apply eq_of_parts_eq
  change parts (pack (.sub .binary64 (parts x) (parts c))) = _
  rw [hx, hsub]
  cases s <;> rfl

theorem infinity_le_or (hy : IsNumber y) {s : Sign} (hx : parts x = .infinity s) :
    (s = .negative ∧ x ≤ y) ∨ (s = .positive ∧ y ≤ x) := by
  rw [le_iff_compare, le_iff_compare, hx]
  unfold IsNumber at hy
  cases s with
  | negative =>
    refine .inl ⟨rfl, ?_⟩
    cases hparts : parts y with
    | notANumber => exact absurd hparts hy
    | zero t => rfl
    | infinity t => cases t <;> rfl
    | finite t k e hk => rfl
  | positive =>
    refine .inr ⟨rfl, ?_⟩
    cases hparts : parts y with
    | notANumber => exact absurd hparts hy
    | zero t => rfl
    | infinity t => cases t <;> rfl
    | finite t k e hk => cases t <;> rfl

theorem not_isFinite_of_le {s : Sign} (hx : parts x = .infinity s) (h : x ≤ y) (h' : y ≤ x) :
    ¬y.isFinite = true := by
  have hvalue : value x = value y := le_antisymm (value_le_of_le h) (value_le_of_le h')
  have hcompare := compare_parts (isNumber_of_le h).1 (isNumber_of_le h).2
  rw [compare_eq_iff_eq.mpr hvalue] at hcompare
  change ¬(parts y).isFinite = true
  rcases similar_of_compare hcompare with heq | ⟨⟨t, hzero⟩, -⟩
  · rw [← heq, hx]
    exact Bool.false_ne_true
  · rw [hx] at hzero
    contradiction

theorem isFinite_of_le_of_le (hx : x.isFinite = true) (hz : z.isFinite = true) (h : x ≤ y)
    (h' : y ≤ z) : y.isFinite = true := by
  by_contra hy
  obtain ⟨s, hs⟩ := exists_eq_infinity (isNumber_of_le h).2 hy
  rcases infinity_le_or (isNumber_of_isFinite hx) hs with ⟨-, hle⟩ | ⟨rfl, -⟩
  · exact not_isFinite_of_le hs hle h hx
  · have hle := ((infinity_le_or (isNumber_of_isFinite hz) hs).resolve_left (by simp)).2
    exact not_isFinite_of_le hs h' hle hz

/-- What keeps the order of finite numbers, and infinities where they are, keeps all order. -/
theorem le_of_finite {f : Float → Float}
    (hnumber : ∀ {x : Float}, x.isFinite = true → IsNumber (f x))
    (hmono : ∀ {x y : Float}, x.isFinite = true → y.isFinite = true → x ≤ y → f x ≤ f y)
    (hself : ∀ {x : Float} {s}, parts x = .infinity s → f x = x) (h : x ≤ y) : f x ≤ f y := by
  obtain ⟨hx, hy⟩ := isNumber_of_le h
  by_cases hx' : x.isFinite = true
  · by_cases hy' : y.isFinite = true
    · exact hmono hx' hy' h
    · obtain ⟨s, hs⟩ := exists_eq_infinity hy hy'
      rw [hself hs]
      rcases infinity_le_or hx hs with ⟨-, hle⟩ | ⟨rfl, -⟩
      · exact absurd hx' (not_isFinite_of_le hs hle h)
      · exact ((infinity_le_or (hnumber hx') hs).resolve_left (by simp)).2
  · obtain ⟨s, hs⟩ := exists_eq_infinity hx hx'
    rw [hself hs]
    by_cases hy' : y.isFinite = true
    · rcases infinity_le_or hy hs with ⟨rfl, -⟩ | ⟨-, hle⟩
      · exact ((infinity_le_or (hnumber hy') hs).resolve_right (by simp)).2
      · exact absurd hy' (not_isFinite_of_le hs h hle)
    · obtain ⟨t, ht⟩ := exists_eq_infinity hy hy'
      rw [hself ht]
      exact h

protected theorem add_le_add_right (hc : c.isFinite = true) (h : x ≤ y) : x + c ≤ y + c := by
  have hself : c ≤ c := (le_iff_value_le (isNumber_of_isFinite hc) (isNumber_of_isFinite hc)).mpr
    le_rfl
  exact le_of_finite (f := (· + c)) (fun hx => isNumber_add hx hc)
    (fun hx hy hxy => Double.add_le_add hx hy hc hc hxy hself) (fun hx => add_eq_self hx hc) h

protected theorem sub_le_sub_right (hc : c.isFinite = true) (h : x ≤ y) : x - c ≤ y - c := by
  have hself : c ≤ c := (le_iff_value_le (isNumber_of_isFinite hc) (isNumber_of_isFinite hc)).mpr
    le_rfl
  exact le_of_finite (f := (· - c)) (fun hx => isNumber_sub hx hc)
    (fun hx hy hxy => Double.sub_le_sub hx hy hc hc hxy hself) (fun hx => sub_eq_self hx hc) h

end Monotone

end HazardReach.Double
