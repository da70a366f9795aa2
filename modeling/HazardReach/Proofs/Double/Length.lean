import HazardReach.Proofs.Double

/-! Doubles that are not a number, and those that have no sign. What is not a number compares with
nothing and stays so in a product. A length is not a number only for want of one among its parts,
and is never below zero. -/
namespace HazardReach.Double

open Float.Model (UnpackedFloat Format)
open Float.Model.UnpackedFloat

variable {x y : Float}

theorem isNaN_iff : x.isNaN = true ↔ parts x = .notANumber := by
  change (parts x).isNaN = true ↔ _
  cases parts x with
  | notANumber => exact iff_of_true rfl rfl
  | zero s => exact iff_of_false Bool.false_ne_true nofun
  | infinity s => exact iff_of_false Bool.false_ne_true nofun
  | finite s m e hm => exact iff_of_false Bool.false_ne_true nofun

theorem isInf_of_isNaN (h : x.isNaN = true) : x.isInf = false := by
  change (parts x).isInf = false
  rw [isNaN_iff.mp h]
  rfl

theorem isNaN_mul_left (h : x.isNaN = true) (y : Float) : (x * y).isNaN = true := by
  have hmul (u : UnpackedFloat) : UnpackedFloat.mul .binary64 .notANumber u = .notANumber := by
    cases u <;> rfl
  change (parts (pack (.mul .binary64 (parts x) (parts y)))).isNaN = true
  rw [isNaN_iff.mp h, hmul]
  rfl

theorem beq_eq_false_of_isNaN (h : x.isNaN = true) (y : Float) : (x == y) = false := by
  rw [Bool.eq_false_iff, ne_eq, beq_iff_compare, isNaN_iff.mp h]
  exact nofun

theorem zero_le_iff : 0 ≤ x ↔
    ((UnpackedFloat.zero .positive).compare (parts x)).any (·.isLE) = true :=
  le_iff_compare

theorem not_nonneg_of_isNaN (h : x.isNaN = true) : ¬0 ≤ x := by
  rw [zero_le_iff, isNaN_iff.mp h]
  exact nofun

theorem nonneg_of_pos (h : 0 < x) : 0 ≤ x := by
  rw [lt_iff_compare] at h
  rw [le_iff_compare, h]
  rfl

/-- A number without a sign, or infinity. -/
inductive Unsigned : UnpackedFloat → Prop where
  | zero : Unsigned (.zero .positive)
  | finite {mantissa : Nat} {exponent : Int} (h : 0 < mantissa) :
    Unsigned (.finite .positive mantissa exponent h)
  | infinity : Unsigned (.infinity .positive)

theorem unpackSign_packComponents {spec : Format} (s : Sign)
    (exponent : BitVec spec.exponentBits) (mantissa : BitVec spec.mantissaBitsWithoutImplicit) :
    unpackSign (packComponents spec s exponent mantissa) = s.toBitVec := by
  unfold unpackSign
  ext i hi
  obtain rfl : i = 0 := by omega
  simp [packComponents, BitVec.getLsbD_append, BitVec.getElem_append]

theorem unsigned_unpack {spec : Format} {b : BitVec spec.numBits}
    (hsign : Sign.ofBitVec (unpackSign b) = .positive) (hexponent : unpackExponent b ≠ -1#_) :
    Unsigned (unpack spec b) := by
  unfold UnpackedFloat.unpack
  dsimp only
  rw [if_neg hexponent, hsign]
  by_cases hsubnormal : unpackExponent b = 0#_
  · rw [if_pos hsubnormal]
    by_cases hzero : unpackMantissa b = 0#_
    · rw [dif_pos hzero]
      exact .zero
    · rw [dif_neg hzero]
      exact .finite _
  · rw [if_neg hsubnormal]
    exact .finite _

theorem unsigned_unpack_packComponents {spec : Format} {exponent : BitVec spec.exponentBits}
    (h : exponent ≠ -1#_) (mantissa : BitVec spec.mantissaBitsWithoutImplicit) :
    Unsigned (unpack spec (packComponents spec .positive exponent mantissa)) := by
  apply unsigned_unpack
  · rw [unpackSign_packComponents]
    rfl
  · rwa [unpackExponent_packComponents]

theorem unsigned_pack {u : UnpackedFloat} (h : Unsigned u) : Unsigned (parts (pack u)) := by
  cases h with
  | zero => exact .zero
  | infinity => exact .infinity
  | @finite mantissa exponent hpos =>
    change Unsigned (unpack _ (UnpackedFloat.pack .binary64 _))
    unfold UnpackedFloat.pack
    dsimp only
    split
    · exact .infinity
    · rename_i hsmall
      split
      · apply unsigned_unpack_packComponents
        -- The largest exponent has been taken for infinity before.
        intro hexponent
        have hfield := congrArg BitVec.toNat hexponent
        rw [BitVec.toNat_ofNat] at hfield
        change _ % 2048 = 2047 at hfield
        change ¬2048 ≤ _ at hsmall
        omega
      · exact unsigned_unpack_packComponents (by decide) _

theorem unsigned_abs (h : x.isNaN = false) : Unsigned (parts x.abs) := by
  change Unsigned (parts (pack (parts x).abs))
  apply unsigned_pack
  cases hx : parts x with
  | notANumber =>
    rw [isNaN_iff.mpr hx] at h
    contradiction
  | zero s => exact .zero
  | infinity s => exact .infinity
  | finite s m e hm => exact .finite hm

theorem Unsigned.isNaN (h : Unsigned (parts x)) : x.isNaN = false := by
  change (parts x).isNaN = false
  generalize parts x = u at h
  cases h <;> rfl

theorem Unsigned.nonneg (h : Unsigned (parts x)) : 0 ≤ x := by
  rw [zero_le_iff]
  generalize parts x = u at h
  cases h <;> rfl

theorem pos_of_nonneg (h : 0 ≤ x) (hne : (x == 0) = false) : 0 < x := by
  rw [Bool.eq_false_iff, ne_eq, beq_iff_compare] at hne
  rw [zero_le_iff] at h
  rw [lt_iff_compare]
  change ¬(parts x).compare (.zero .positive) = some .eq at hne
  change (UnpackedFloat.zero .positive).compare (parts x) = some .lt
  generalize parts x = u at h hne
  cases u with
  | notANumber => contradiction
  | zero s => exact (hne rfl).elim
  | infinity s => cases s <;> first | rfl | contradiction
  | finite s => cases s <;> first | rfl | contradiction

theorem unsigned_maximum (hx : Unsigned (parts x)) (hy : Unsigned (parts y)) :
    Unsigned (parts (maximum x y)) := by
  unfold maximum
  split_ifs
  · exact hx
  · exact hx
  · exact hy

private theorem zero_compare {u v : UnpackedFloat} (hu : Unsigned u) (hv : v ≠ .notANumber)
    (h : v.compare u ≠ some .lt) :
    ((UnpackedFloat.zero .positive).compare v).any (·.isLE) = true := by
  cases v with
  | notANumber => contradiction
  | zero s => rfl
  | infinity s =>
    cases s with
    | positive => rfl
    | negative => cases hu <;> exact (h rfl).elim
  | finite s =>
    cases s with
    | positive => rfl
    | negative => cases hu <;> exact (h rfl).elim

theorem maximum_of_unsigned (h : Unsigned (parts x)) (y : Float) :
    (maximum x y).isNaN = false ∧ 0 ≤ maximum x y := by
  unfold maximum
  split_ifs with hnan hlt
  · exact ⟨h.isNaN, h.nonneg⟩
  · exact ⟨h.isNaN, h.nonneg⟩
  · rw [lt_iff_compare] at hlt
    rw [isNaN_iff] at hnan
    refine ⟨?_, zero_le_iff.mpr (zero_compare h hnan hlt)⟩
    rwa [Bool.eq_false_iff, ne_eq, isNaN_iff]

theorem length_of_numbers (hx : x.isNaN = false) (hy : y.isNaN = false) :
    (length x y).isNaN = false ∧ 0 ≤ length x y := by
  unfold length
  split_ifs with hinf hnan
  · exact ⟨rfl, by decide⟩
  · rw [hx, hy] at hnan
    contradiction
  · exact maximum_of_unsigned (unsigned_maximum (unsigned_abs hx) (unsigned_abs hy)) _

theorem length_of_isInf (h : (x.isInf || y.isInf) = true) : length x y = infinity := if_pos h

theorem length_of_isNaN (hinf : (x.isInf || y.isInf) = false) (h : (x.isNaN || y.isNaN) = true) :
    length x y = notANumber := by
  unfold length
  rw [hinf, if_neg Bool.false_ne_true, if_pos h]

theorem isNaN_length_iff : (length x y).isNaN = true ↔
    (x.isInf || y.isInf) = false ∧ (x.isNaN || y.isNaN) = true := by
  cases hinf : x.isInf || y.isInf with
  | true =>
    rw [length_of_isInf hinf]
    exact iff_of_false (by decide) fun h => absurd h.1 (by decide)
  | false =>
    cases hnan : x.isNaN || y.isNaN with
    | true =>
      rw [length_of_isNaN hinf hnan]
      exact iff_of_true (by decide) ⟨rfl, rfl⟩
    | false =>
      obtain ⟨hx, hy⟩ := Bool.or_eq_false_iff.mp hnan
      rw [(length_of_numbers hx hy).1]
      exact iff_of_false (by decide) fun h => absurd h.2 (by decide)

theorem length_nonneg (h : (length x y).isNaN = false) : 0 ≤ length x y := by
  cases hinf : x.isInf || y.isInf with
  | true =>
    rw [length_of_isInf hinf]
    decide
  | false =>
    have hnan : (x.isNaN || y.isNaN) = false := by
      rw [Bool.eq_false_iff]
      intro hnan
      rw [isNaN_length_iff.mpr ⟨hinf, hnan⟩] at h
      contradiction
    rw [Bool.or_eq_false_iff] at hnan
    exact (length_of_numbers hnan.1 hnan.2).2

end HazardReach.Double
