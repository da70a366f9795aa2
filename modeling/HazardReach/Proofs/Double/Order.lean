import HazardReach.Double
import HazardReach.Proofs.Lawful

/-! The order of doubles. A double is read off its bit pattern as a sign and a magnitude: the order
of magnitudes is the order of exponents and mantissas, with infinity above all of them, so that
comparison is the order of signed magnitudes and sorting by pattern refines it. -/
namespace HazardReach.Double

open Float.Model (UnpackedFloat Format)
open Float.Model.UnpackedFloat

/-- Sign, mantissa and exponent, or what stands in their place. -/
def parts (x : Float) : UnpackedFloat := x.toModel.unpack

def bits (x : Float) : Nat := x.toBits.toNat

def sign (negative : Bool) : Sign := if negative then .negative else .positive

theorem toNat_unpackExponent (b : BitVec Format.binary64.numBits) :
    (unpackExponent b).toNat = b.toNat / 2 ^ 52 % 2 ^ 11 := by
  unfold unpackExponent
  rw [BitVec.toNat_cast, BitVec.extractLsb_toNat, Nat.shiftRight_eq_div_pow]
  rfl

theorem toNat_unpackMantissa (b : BitVec Format.binary64.numBits) :
    (unpackMantissa b).toNat = b.toNat % 2 ^ 52 := by
  unfold unpackMantissa
  rw [BitVec.toNat_cast, BitVec.extractLsb_toNat, Nat.shiftRight_zero]
  rfl

theorem toNat_unpackSign (b : BitVec Format.binary64.numBits) :
    (unpackSign b).toNat = b.toNat / 2 ^ 63 % 2 ^ 1 := by
  unfold unpackSign
  rw [BitVec.toNat_cast, BitVec.extractLsb_toNat, Nat.shiftRight_eq_div_pow]
  rfl

theorem sign_unpackSign (b : BitVec Format.binary64.numBits) :
    Sign.ofBitVec (unpackSign b) = sign (decide (2 ^ 63 ≤ b.toNat)) := by
  have hbits := toNat_unpackSign b
  have hlt : b.toNat < 2 ^ 64 := b.isLt
  unfold Sign.ofBitVec sign
  by_cases h : 2 ^ 63 ≤ b.toNat
  · rw [decide_eq_true h, if_neg, if_pos rfl]
    intro hz
    rw [hz, BitVec.toNat_zero] at hbits
    omega
  · rw [decide_eq_false h, if_pos, if_neg Bool.false_ne_true]
    apply BitVec.eq_of_toNat_eq
    rw [BitVec.toNat_zero]
    omega

/-- The mantissa and the exponent of a finite magnitude. At the smallest exponent the mantissa may
have no leading bit. -/
def Splits (magnitude mantissa : Nat) (exponent : Int) : Prop :=
  (magnitude < 2 ^ 52 ∧ mantissa = magnitude ∧ exponent = -1074) ∨
    (2 ^ 52 ≤ magnitude ∧ magnitude < 2047 * 2 ^ 52 ∧ mantissa = 2 ^ 52 + magnitude % 2 ^ 52 ∧
      exponent = (magnitude / 2 ^ 52 : Nat) - 1075)

theorem Splits.magnitude_pos {magnitude mantissa : Nat} {exponent : Int}
    (h : Splits magnitude mantissa exponent) (hpos : 0 < mantissa) : 0 < magnitude := by
  unfold Splits at h
  omega

/-- What a bit pattern stands for, in terms of its magnitude: the pattern without the sign. -/
inductive Stands (negative : Bool) (magnitude : Nat) : UnpackedFloat → Prop where
  | zero : magnitude = 0 → Stands negative magnitude (.zero (sign negative))
  | finite {mantissa : Nat} {exponent : Int} (h : 0 < mantissa) :
    Splits magnitude mantissa exponent →
      Stands negative magnitude (.finite (sign negative) mantissa exponent h)
  | infinity : magnitude = 2047 * 2 ^ 52 → Stands negative magnitude (.infinity (sign negative))
  | notANumber : 2047 * 2 ^ 52 < magnitude → Stands negative magnitude .notANumber

theorem stands_unpack (b : BitVec Format.binary64.numBits) :
    Stands (decide (2 ^ 63 ≤ b.toNat)) (b.toNat % 2 ^ 63) (unpack Format.binary64 b) := by
  have hexp := toNat_unpackExponent b
  have hmant := toNat_unpackMantissa b
  have hbias : ((Format.binary64.exponentBias : Int) +
    (Format.binary64.mantissaBitsWithoutImplicit : Int)) = 1075 := rfl
  unfold UnpackedFloat.unpack
  dsimp only
  rw [sign_unpackSign, hbias]
  by_cases he : unpackExponent b = -1#11
  · rw [if_pos he]
    rw [he] at hexp
    change 2047 = _ at hexp
    by_cases hm : unpackMantissa b = 0#52
    · rw [if_pos hm]
      rw [hm, BitVec.toNat_zero] at hmant
      exact .infinity (by omega)
    · rw [if_neg hm]
      rw [← BitVec.toNat_inj, BitVec.toNat_zero] at hm
      exact .notANumber (by omega)
  · rw [if_neg he]
    rw [← BitVec.toNat_inj] at he
    change _ ≠ 2047 at he
    by_cases he0 : unpackExponent b = 0#11
    · rw [if_pos he0]
      rw [he0, BitVec.toNat_zero] at hexp
      by_cases hm : unpackMantissa b = 0#52
      · rw [dif_pos hm]
        rw [hm, BitVec.toNat_zero] at hmant
        exact .zero (by omega)
      · rw [dif_neg hm, he0, BitVec.toNat_zero]
        exact .finite _ (.inl ⟨by omega, by omega, rfl⟩)
    · rw [if_neg he0]
      rw [← BitVec.toNat_inj, BitVec.toNat_zero] at he0
      have happend : (1#1 ++ unpackMantissa b).toNat = 2 ^ 52 + (unpackMantissa b).toNat := by
        rw [BitVec.toNat_append, ← Nat.shiftLeft_add_eq_or_of_lt (unpackMantissa b).isLt]
        rfl
      exact .finite _ (.inr ⟨by omega, by omega, by omega, by omega⟩)

theorem stands (x : Float) : Stands (decide (2 ^ 63 ≤ bits x)) (bits x % 2 ^ 63) (parts x) :=
  stands_unpack _

/-- The magnitude with its sign; the two zeros have the same. -/
def signed (negative : Bool) (magnitude : Nat) : Int :=
  if negative then -(magnitude : Int) else magnitude

@[simp]
theorem signed_false (m : Nat) : signed false m = m := rfl

@[simp]
theorem signed_true (m : Nat) : signed true m = -(m : Int) := rfl

@[simp]
theorem signed_zero (negative : Bool) : signed negative 0 = 0 := by
  cases negative <;> rfl

def value (x : Float) : Int := signed (decide (2 ^ 63 ≤ bits x)) (bits x % 2 ^ 63)

private theorem compare_magnitude {m m' mantissa mantissa' : Nat} {exponent exponent' : Int}
    (h : Splits m mantissa exponent) (h' : Splits m' mantissa' exponent') :
    (compare exponent exponent').then (compare mantissa mantissa') = compare m m' := by
  unfold Splits at h h'
  rcases lt_trichotomy m m' with hlt | heq | hgt
  · rw [compare_lt_iff_lt.mpr hlt]
    by_cases hexp : exponent < exponent'
    · rw [compare_lt_iff_lt.mpr hexp]
      rfl
    · have heq : exponent = exponent' := by omega
      have hmant : mantissa < mantissa' := by omega
      rw [compare_eq_iff_eq.mpr heq, compare_lt_iff_lt.mpr hmant]
      rfl
  · have hexp : exponent = exponent' := by omega
    have hmant : mantissa = mantissa' := by omega
    rw [compare_eq_iff_eq.mpr hexp, compare_eq_iff_eq.mpr hmant, compare_eq_iff_eq.mpr heq]
    rfl
  · rw [compare_gt_iff_gt.mpr hgt]
    by_cases hexp : exponent' < exponent
    · rw [compare_gt_iff_gt.mpr hexp]
      rfl
    · have heq : exponent = exponent' := by omega
      have hmant : mantissa' < mantissa := by omega
      rw [compare_eq_iff_eq.mpr heq, compare_gt_iff_gt.mpr hmant]
      rfl

private theorem compare_congr {A B : Type} [LinearOrder A] [LinearOrder B] {a b : A} {c d : B}
    (hlt : a < b ↔ c < d) (hgt : b < a ↔ d < c) : compare a b = compare c d := by
  rcases lt_trichotomy a b with h | h | h
  · rw [compare_lt_iff_lt.mpr h, compare_lt_iff_lt.mpr (hlt.mp h)]
  · have hcd : c = d := le_antisymm (not_lt.mp fun hd => (hgt.mpr hd).ne h.symm)
      (not_lt.mp fun hc => (hlt.mpr hc).ne h)
    rw [compare_eq_iff_eq.mpr h, compare_eq_iff_eq.mpr hcd]
  · rw [compare_gt_iff_gt.mpr h, compare_gt_iff_gt.mpr (hgt.mp h)]

/-- The magnitude of infinity. -/
def beyond : Nat := 2047 * 2 ^ 52

section Compare

variable {n n' : Bool} {m m' : Nat} {u u' : UnpackedFloat}

private theorem then_swap (e e' : Int) (m m' : Nat) :
    (compare e' e).then (compare m' m) = ((compare e e').then (compare m m')).swap := by
  rw [Ordering.swap_then, ← Std.OrientedOrd.eq_swap, ← Std.OrientedOrd.eq_swap]

theorem compare_swap (u v : UnpackedFloat) : v.compare u = (u.compare v).map Ordering.swap := by
  cases u with
  | notANumber =>
    cases v with
    | notANumber => rfl
    | zero s => rfl
    | infinity s => cases s <;> rfl
    | finite s => cases s <;> rfl
  | zero s =>
    cases v with
    | notANumber => rfl
    | zero t => rfl
    | infinity t => cases t <;> rfl
    | finite t => cases t <;> rfl
  | infinity s =>
    cases v with
    | notANumber => cases s <;> rfl
    | zero t => cases s <;> rfl
    | infinity t => cases s <;> cases t <;> rfl
    | finite t => cases s <;> cases t <;> rfl
  | finite s m e hm =>
    cases v with
    | notANumber => cases s <;> rfl
    | zero t => cases s <;> rfl
    | infinity t => cases s <;> cases t <;> rfl
    | finite t m' e' hm' =>
      cases s <;> cases t
      · exact congrArg (some ·.swap) (then_swap e e' m m')
      · rfl
      · rfl
      · exact congrArg some (then_swap e e' m m')

theorem compare_zero (s : Sign) (h : Stands n m u) (hu : u ≠ .notANumber) :
    (UnpackedFloat.zero s).compare u = some (compare 0 (signed n m)) := by
  cases h with
  | notANumber hm => contradiction
  | zero hm =>
    rw [hm, signed_zero]
    rfl
  | finite hpos hm =>
    have hmagnitude := hm.magnitude_pos hpos
    cases n with
    | false =>
      rw [compare_lt_iff_lt.mpr (by rw [signed_false]; omega)]
      rfl
    | true =>
      rw [compare_gt_iff_gt.mpr (by rw [signed_true]; omega)]
      rfl
  | infinity hm =>
    rw [hm]
    cases n <;> rfl

theorem Stands.magnitude_le (h : Stands n m u) (hu : u ≠ .notANumber) : m ≤ beyond := by
  unfold beyond
  cases h with
  | notANumber hm => contradiction
  | zero hm => omega
  | infinity hm => omega
  | finite hpos hm =>
    unfold Splits at hm
    omega

theorem Stands.magnitude_lt (h : Stands n m u) (hu : u.isFinite = true) : m < beyond := by
  unfold beyond
  cases h with
  | notANumber hm => contradiction
  | infinity hm => contradiction
  | zero hm => omega
  | finite hpos hm =>
    unfold Splits at hm
    omega

theorem compare_infinity (k : Bool) (h : Stands n m u) (hu : u ≠ .notANumber) :
    (UnpackedFloat.infinity (sign k)).compare u =
      some (compare (signed k beyond) (signed n m)) := by
  by_cases hfinite : u.isFinite = true
  · have hlt := h.magnitude_lt hfinite
    have hcompare : (UnpackedFloat.infinity (sign k)).compare u =
        some (if k then .lt else .gt) := by
      cases u with
      | notANumber => contradiction
      | infinity s => contradiction
      | zero s => cases k <;> rfl
      | finite s => cases k <;> rfl
    rw [hcompare]
    cases k with
    | false =>
      rw [compare_gt_iff_gt.mpr (by cases n <;> simp only [signed_false, signed_true] <;> omega)]
      rfl
    | true =>
      rw [compare_lt_iff_lt.mpr (by cases n <;> simp only [signed_false, signed_true] <;> omega)]
      rfl
  · cases h with
    | notANumber hm => contradiction
    | zero hm => exact absurd rfl hfinite
    | finite hpos hm => exact absurd rfl hfinite
    | infinity hm =>
      rw [hm]
      cases k <;> cases n <;> rfl

private theorem compare_finite {k k' : Nat} {e e' : Int} (hpos : 0 < k) (hpos' : 0 < k')
    (h : Splits m k e) (h' : Splits m' k' e') :
    (UnpackedFloat.finite (sign n) k e hpos).compare (.finite (sign n') k' e' hpos') =
      some (compare (signed n m) (signed n' m')) := by
  have hmagnitude := h.magnitude_pos hpos
  have hmagnitude' := h'.magnitude_pos hpos'
  cases n <;> cases n'
  · change some ((compare _ _).then (compare _ _)) = _
    rw [compare_magnitude h h']
    exact congrArg some (compare_congr (by simp) (by simp))
  · rw [compare_gt_iff_gt.mpr (by simp only [signed_false, signed_true]; omega)]
    rfl
  · rw [compare_lt_iff_lt.mpr (by simp only [signed_false, signed_true]; omega)]
    rfl
  · change some ((compare _ _).then (compare _ _)).swap = _
    rw [compare_magnitude h h', ← Std.OrientedOrd.eq_swap]
    exact congrArg some (compare_congr (by simp) (by simp))

theorem compare_stands (h : Stands n m u) (h' : Stands n' m' u') (hu : u ≠ .notANumber)
    (hu' : u' ≠ .notANumber) : u.compare u' = some (compare (signed n m) (signed n' m')) := by
  have hswap {v : UnpackedFloat} {z : Int} (h : v.compare u = some (compare z (signed n m))) :
      u.compare v = some (compare (signed n m) z) := by
    rw [compare_swap, h, Option.map_some, ← Std.OrientedOrd.eq_swap]
  cases h' with
  | notANumber hm' => contradiction
  | zero hm' =>
    rw [hm', signed_zero]
    exact hswap (compare_zero _ h hu)
  | infinity hm' =>
    rw [hm']
    exact hswap (compare_infinity n' h hu)
  | finite hpos' hm' =>
    cases h with
    | notANumber hm => contradiction
    | zero hm =>
      rw [hm, signed_zero]
      exact compare_zero _ (.finite hpos' hm') hu'
    | infinity hm =>
      rw [hm]
      exact compare_infinity n (.finite hpos' hm') hu'
    | finite hpos hm => exact compare_finite hpos hpos' hm hm'

end Compare

section Order

variable {x y : Float}

def IsNumber (x : Float) : Prop := parts x ≠ .notANumber

theorem isNumber_of_isFinite (h : x.isFinite = true) : IsNumber x := by
  change (parts x).isFinite = true at h
  intro hnan
  rw [hnan] at h
  contradiction

theorem compare_parts (hx : IsNumber x) (hy : IsNumber y) :
    (parts x).compare (parts y) = some (compare (value x) (value y)) :=
  compare_stands (stands x) (stands y) hx hy

theorem isNumber_of_compare {o : Ordering} (h : (parts x).compare (parts y) = some o) :
    IsNumber x ∧ IsNumber y := by
  constructor
  · intro hx
    rw [hx] at h
    contradiction
  · intro hy
    rw [hy, compare_swap] at h
    contradiction

theorem lt_iff_compare : x < y ↔ (parts x).compare (parts y) = some .lt := by
  change decide (_ = true) = true ↔ _
  rw [decide_eq_true_eq]
  change ((parts x).compare (parts y) == some .lt) = true ↔ _
  rw [beq_iff_eq]

theorem le_iff_compare : x ≤ y ↔ ((parts x).compare (parts y)).any (·.isLE) = true := by
  change decide (_ = true) = true ↔ _
  rw [decide_eq_true_eq]
  rfl

theorem beq_iff_compare : (x == y) = true ↔ (parts x).compare (parts y) = some .eq := by
  change ((parts x).compare (parts y) == some .eq) = true ↔ _
  rw [beq_iff_eq]

theorem lt_iff_value_lt (hx : IsNumber x) (hy : IsNumber y) : x < y ↔ value x < value y := by
  rw [lt_iff_compare, compare_parts hx hy, Option.some.injEq, compare_lt_iff_lt]

theorem le_iff_value_le (hx : IsNumber x) (hy : IsNumber y) : x ≤ y ↔ value x ≤ value y := by
  rw [le_iff_compare, compare_parts hx hy, Option.any_some, Std.isLE_compare]

theorem beq_iff_value_eq (hx : IsNumber x) (hy : IsNumber y) :
    (x == y) = true ↔ value x = value y := by
  rw [beq_iff_compare, compare_parts hx hy, Option.some.injEq, compare_eq_iff_eq]

theorem isNumber_of_le (h : x ≤ y) : IsNumber x ∧ IsNumber y := by
  rw [le_iff_compare] at h
  cases hcompare : (parts x).compare (parts y) with
  | none =>
    rw [hcompare] at h
    contradiction
  | some o => exact isNumber_of_compare hcompare

theorem value_le_of_le (h : x ≤ y) : value x ≤ value y :=
  (le_iff_value_le (isNumber_of_le h).1 (isNumber_of_le h).2).mp h

/-- The order of bit patterns refines the order of values: it only tells the zeros apart. -/
theorem orderKey_eq (x : Float) :
    orderKey x = if 2 ^ 63 ≤ bits x then value x - 1 else value x := by
  have hlt : bits x < 2 ^ 64 := UInt64.toNat_lt _
  have hmagnitude : ((bits x / 2 ^ 52 % 2 ^ 11 : Nat) : Int) * ((2 ^ 52 : Nat) : Int) +
      ((bits x % 2 ^ 52 : Nat) : Int) = ((bits x % 2 ^ 63 : Nat) : Int) := by
    omega
  unfold orderKey value signed
  change (if decide (2 ^ 63 ≤ bits x) = true then -(_ : Int) - 1 else _) = _
  change (if decide (2 ^ 63 ≤ bits x) = true then
    -(((bits x / 2 ^ 52 % 2 ^ 11 : Nat) : Int) * ((2 ^ 52 : Nat) : Int) +
      ((bits x % 2 ^ 52 : Nat) : Int)) - 1 else
    ((bits x / 2 ^ 52 % 2 ^ 11 : Nat) : Int) * ((2 ^ 52 : Nat) : Int) +
      ((bits x % 2 ^ 52 : Nat) : Int)) = _
  rw [hmagnitude]
  by_cases h : 2 ^ 63 ≤ bits x
  · simp only [h, decide_true, if_true]
  · simp only [h, decide_false, if_false, Bool.false_eq_true]

theorem value_le_of_orderKey_le (h : orderKey x ≤ orderKey y) : value x ≤ value y := by
  have hx : 2 ^ 63 ≤ bits x → value x ≤ 0 := by
    intro hsign
    simp only [value, hsign, decide_true, signed_true]
    omega
  have hy : ¬2 ^ 63 ≤ bits y → 0 ≤ value y := by
    intro hsign
    simp only [value, hsign, decide_false, signed_false]
    omega
  rw [orderKey_eq, orderKey_eq] at h
  split at h <;> split at h <;> grind

end Order

theorem parts_notANumber {x : Float} (h : parts x = .notANumber) :
    bits x = (packedNaN Format.binary64).toNat := by
  have hvalid := x.toModel.valid
  have hstands := stands x
  rw [h] at hstands
  have hmagnitude : 2047 * 2 ^ 52 < bits x % 2 ^ 63 := by
    cases hstands
    assumption
  have hexp := @toNat_unpackExponent x.toModel.toBits.toBitVec
  have hmant := @toNat_unpackMantissa x.toModel.toBits.toBitVec
  have hbits : x.toModel.toBits.toBitVec.toNat = bits x := rfl
  rw [hbits] at hexp hmant
  apply congrArg BitVec.toNat (hvalid.eq_packedNaN _ _)
  · rw [← BitVec.toNat_inj, hexp]
    change _ = 2047
    omega
  · intro hzero
    rw [hzero, BitVec.toNat_zero] at hmant
    omega

private theorem sign_inj {n n' : Bool} (h : sign n = sign n') : n = n' := by
  cases n <;> cases n' <;> first | rfl | contradiction

private theorem Stands.inj {n n' : Bool} {m m' : Nat} {u : UnpackedFloat} (h : Stands n m u)
    (h' : Stands n' m' u) (hu : u ≠ .notANumber) : n = n' ∧ m = m' := by
  generalize hv : u = v at h'
  cases h with
  | notANumber hm => contradiction
  | zero hm =>
    cases h' with
    | zero hm' => exact ⟨sign_inj (UnpackedFloat.zero.inj hv), hm.trans hm'.symm⟩
    | _ => contradiction
  | infinity hm =>
    cases h' with
    | infinity hm' => exact ⟨sign_inj (UnpackedFloat.infinity.inj hv), hm.trans hm'.symm⟩
    | _ => contradiction
  | finite hpos hm =>
    cases h' with
    | finite hpos' hm' =>
      obtain ⟨hsign, hmantissa, hexponent⟩ := UnpackedFloat.finite.inj hv
      unfold Splits at hm hm'
      exact ⟨sign_inj hsign, by omega⟩
    | _ => contradiction

theorem eq_of_bits_eq {x y : Float} (h : bits x = bits y) : x = y := by
  obtain ⟨x⟩ := x
  obtain ⟨y⟩ := y
  obtain ⟨_, _⟩ := x
  obtain ⟨_, _⟩ := y
  congr
  exact UInt64.toNat_inj.mp h

/-- Nothing is lost in parts: doubles have one pattern for what is not a number. -/
theorem eq_of_parts_eq {x y : Float} (h : parts x = parts y) : x = y := by
  apply eq_of_bits_eq
  by_cases hnan : parts x = .notANumber
  · rw [parts_notANumber hnan, parts_notANumber (h.symm.trans hnan)]
  · have hx : bits x < 2 ^ 64 := UInt64.toNat_lt _
    have hy : bits y < 2 ^ 64 := UInt64.toNat_lt _
    obtain ⟨hnegative, hmagnitude⟩ := (stands x).inj (h ▸ stands y) hnan
    rw [decide_eq_decide] at hnegative
    omega

end HazardReach.Double
