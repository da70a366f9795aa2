import HazardReach.Proofs.Double.Order

/-! Doubles keep the laws of numbers. The signs of zeros pass through arithmetic into the signs of
zeros and nowhere else. -/
namespace HazardReach

namespace Double

open Float.Model (UnpackedFloat Format)
open Float.Model.UnpackedFloat

def IsZero (u : UnpackedFloat) : Prop := ∃ s, u = .zero s

/-- Parts that are the same, but for the sign of a zero. -/
def Similar (u v : UnpackedFloat) : Prop := u = v ∨ (IsZero u ∧ IsZero v)

private theorem eq_of_compare_then {e e' : Int} {m m' : Nat}
    (h : (compare e e').then (compare m m') = .eq) : e = e' ∧ m = m' := by
  rw [Ordering.then_eq_eq] at h
  exact ⟨compare_eq_iff_eq.mp h.1, compare_eq_iff_eq.mp h.2⟩

theorem similar_of_compare {u v : UnpackedFloat} (h : u.compare v = some .eq) : Similar u v := by
  cases u with
  | notANumber => cases h
  | infinity s =>
    cases v with
    | infinity t => cases s <;> cases t <;> first | exact .inl rfl | cases h
    | notANumber => cases s <;> cases h
    | zero t => cases s <;> cases h
    | finite t => cases s <;> cases h
  | zero s =>
    cases v with
    | zero t => exact .inr ⟨⟨s, rfl⟩, ⟨t, rfl⟩⟩
    | notANumber => cases h
    | infinity t => cases t <;> cases h
    | finite t => cases t <;> cases h
  | finite s m e hm =>
    cases v with
    | notANumber => cases s <;> cases h
    | infinity t => cases s <;> cases t <;> cases h
    | zero t => cases s <;> cases h
    | finite t m' e' hm' =>
      left
      cases s <;> cases t <;> dsimp only [UnpackedFloat.compare] at h <;>
        simp only [Option.some.injEq, Ordering.swap_eq_eq, reduceCtorEq] at h
      all_goals
        obtain ⟨rfl, rfl⟩ := eq_of_compare_then h
        rfl

theorem alike_iff_similar {x y : Float} : Scalar.Alike x y ↔ Similar (parts x) (parts y) := by
  constructor
  · rintro (rfl | h)
    · exact .inl rfl
    · exact similar_of_compare (beq_iff_compare.mp h)
  · rintro (h | ⟨⟨s, hx⟩, ⟨t, hy⟩⟩)
    · exact .inl (eq_of_parts_eq h)
    · apply Scalar.Alike.of_beq
      rw [beq_iff_compare, hx, hy]
      rfl

/-! ### Arithmetic on parts -/

section Arithmetic

variable {u u' v v' : UnpackedFloat}

def pack (u : UnpackedFloat) : Float := .ofModel (.pack u)

theorem alike_pack (h : Similar u v) : Scalar.Alike (pack u) (pack v) := by
  rw [alike_iff_similar]
  obtain rfl | ⟨⟨s, rfl⟩, ⟨t, rfl⟩⟩ := h
  · exact .inl rfl
  · have hzero (s : Sign) : IsZero (parts (pack (.zero s))) := by
      cases s
      · exact ⟨.negative, rfl⟩
      · exact ⟨.positive, rfl⟩
    exact .inr ⟨hzero s, hzero t⟩

theorem similar_add (h : Similar u u') (h' : Similar v v') :
    Similar (.add .binary64 u v) (.add .binary64 u' v') := by
  have hzero (s t : Sign) : IsZero (.add .binary64 (.zero s) (.zero t)) := by
    cases s <;> cases t <;> exact ⟨_, rfl⟩
  obtain rfl | ⟨⟨s, rfl⟩, ⟨s', rfl⟩⟩ := h <;> obtain rfl | ⟨⟨t, rfl⟩, ⟨t', rfl⟩⟩ := h'
  · exact .inl rfl
  · cases u with
    | zero r => exact .inr ⟨hzero r t, hzero r t'⟩
    | _ => exact .inl rfl
  · cases v with
    | zero r => exact .inr ⟨hzero s r, hzero s' r⟩
    | _ => exact .inl rfl
  · exact .inr ⟨hzero s t, hzero s' t'⟩

theorem similar_sub (h : Similar u u') (h' : Similar v v') :
    Similar (.sub .binary64 u v) (.sub .binary64 u' v') := by
  have hzero (s t : Sign) : IsZero (.sub .binary64 (.zero s) (.zero t)) := by
    cases s <;> cases t <;> exact ⟨_, rfl⟩
  obtain rfl | ⟨⟨s, rfl⟩, ⟨s', rfl⟩⟩ := h <;> obtain rfl | ⟨⟨t, rfl⟩, ⟨t', rfl⟩⟩ := h'
  · exact .inl rfl
  · cases u with
    | zero r => exact .inr ⟨hzero r t, hzero r t'⟩
    | _ => exact .inl rfl
  · cases v with
    | zero r => exact .inr ⟨hzero s r, hzero s' r⟩
    | _ => exact .inl rfl
  · exact .inr ⟨hzero s t, hzero s' t'⟩

theorem similar_mul (h : Similar u u') (h' : Similar v v') :
    Similar (.mul .binary64 u v) (.mul .binary64 u' v') := by
  obtain rfl | ⟨⟨s, rfl⟩, ⟨s', rfl⟩⟩ := h <;> obtain rfl | ⟨⟨t, rfl⟩, ⟨t', rfl⟩⟩ := h'
  · exact .inl rfl
  · cases u with
    | notANumber => exact .inl rfl
    | infinity r => exact .inl rfl
    | zero r => exact .inr ⟨⟨_, rfl⟩, ⟨_, rfl⟩⟩
    | finite r => exact .inr ⟨⟨_, rfl⟩, ⟨_, rfl⟩⟩
  · cases v with
    | notANumber => exact .inl rfl
    | infinity r => exact .inl rfl
    | zero r => exact .inr ⟨⟨_, rfl⟩, ⟨_, rfl⟩⟩
    | finite r => exact .inr ⟨⟨_, rfl⟩, ⟨_, rfl⟩⟩
  · exact .inr ⟨⟨_, rfl⟩, ⟨_, rfl⟩⟩

theorem similar_div (v : UnpackedFloat) (h : Similar u u') :
    Similar (.div .binary64 u v) (.div .binary64 u' v) := by
  obtain rfl | ⟨⟨s, rfl⟩, ⟨s', rfl⟩⟩ := h
  · exact .inl rfl
  · cases v with
    | notANumber => exact .inl rfl
    | zero r => exact .inl rfl
    | infinity r => exact .inr ⟨⟨_, rfl⟩, ⟨_, rfl⟩⟩
    | finite r => exact .inr ⟨⟨_, rfl⟩, ⟨_, rfl⟩⟩

/-- Only the difference of two zeros shows their signs. -/
theorem sub_eq_of_similar (h : Similar u u') (h' : Similar v v') (hne : u.compare v ≠ some .eq) :
    UnpackedFloat.sub .binary64 v u = UnpackedFloat.sub .binary64 v' u' := by
  obtain rfl | ⟨⟨s, rfl⟩, ⟨s', rfl⟩⟩ := h <;> obtain rfl | ⟨⟨t, rfl⟩, ⟨t', rfl⟩⟩ := h'
  · rfl
  · cases u with
    | zero r => exact (hne rfl).elim
    | _ => rfl
  · cases v with
    | zero r => exact (hne rfl).elim
    | _ => rfl
  · exact (hne rfl).elim

theorem compare_of_similar (v : UnpackedFloat) (h : Similar u u') : u.compare v = u'.compare v := by
  obtain rfl | ⟨⟨s, rfl⟩, ⟨s', rfl⟩⟩ := h
  · rfl
  · cases v with
    | notANumber => rfl
    | zero r => rfl
    | infinity r => cases r <;> rfl
    | finite r => cases r <;> rfl

end Arithmetic

end Double

open Double

instance doubleLawful : LawfulScalar Float where
  totalLE_total x y := by
    rw [Bool.or_eq_true]
    exact (le_total _ _).imp decide_eq_true decide_eq_true
  totalLE_trans _ _ _ hxy hyz :=
    decide_eq_true ((of_decide_eq_true hxy).trans (of_decide_eq_true hyz))
  beq_self hx := (beq_iff_value_eq (isNumber_of_isFinite hx) (isNumber_of_isFinite hx)).mpr rfl
  lt_of_totalLE hx hy hle hne := by
    have hx := isNumber_of_isFinite hx
    have hy := isNumber_of_isFinite hy
    rw [lt_iff_value_lt hx hy]
    apply lt_of_le_of_ne (value_le_of_orderKey_le (of_decide_eq_true hle))
    intro heq
    rw [(beq_iff_value_eq hx hy).mpr heq] at hne
    contradiction
  lt_trans hx hy hz hxy hyz := by
    have hx := isNumber_of_isFinite hx
    have hy := isNumber_of_isFinite hy
    have hz := isNumber_of_isFinite hz
    rw [lt_iff_value_lt hx hy] at hxy
    rw [lt_iff_value_lt hy hz] at hyz
    rw [lt_iff_value_lt hx hz]
    exact hxy.trans hyz
  alike_add hx hy :=
    alike_pack (similar_add (alike_iff_similar.mp hx) (alike_iff_similar.mp hy))
  alike_sub hx hy :=
    alike_pack (similar_sub (alike_iff_similar.mp hx) (alike_iff_similar.mp hy))
  alike_mul hx hy :=
    alike_pack (similar_mul (alike_iff_similar.mp hx) (alike_iff_similar.mp hy))
  alike_div _ hx := alike_pack (similar_div _ (alike_iff_similar.mp hx))
  sub_congr hlt hx hy := by
    apply congrArg pack (sub_eq_of_similar (alike_iff_similar.mp hx) (alike_iff_similar.mp hy) _)
    intro heq
    exact absurd ((lt_iff_compare.mp hlt).symm.trans heq) (by decide)
  le_congr y hx := by
    rw [le_iff_compare, le_iff_compare, compare_of_similar _ (alike_iff_similar.mp hx)]

instance doubleOrdered : OrderedScalar Float where
  beq_symm hx hy h := by
    have hx := isNumber_of_isFinite hx
    have hy := isNumber_of_isFinite hy
    rw [beq_iff_value_eq hx hy] at h
    exact (beq_iff_value_eq hy hx).mpr h.symm
  not_beq_of_lt hx hy h := by
    have hx := isNumber_of_isFinite hx
    have hy := isNumber_of_isFinite hy
    rw [lt_iff_value_lt hx hy] at h
    rw [Bool.eq_false_iff, ne_eq, beq_iff_value_eq hx hy]
    exact h.ne
  neg_iff hx := by
    have hx := isNumber_of_isFinite hx
    have hzero : IsNumber 0 := isNumber_of_isFinite (by decide)
    rw [lt_iff_value_lt hx hzero, le_iff_value_le hzero hx, not_le]

instance doubleCompared : ComparedScalar Float where
  le_self_of_finite h := by
    have hx := isNumber_of_isFinite h
    exact (le_iff_value_le hx hx).mpr le_rfl
  le_self h := by
    obtain ⟨hx, hy⟩ := isNumber_of_le h
    exact ⟨(le_iff_value_le hx hx).mpr le_rfl, (le_iff_value_le hy hy).mpr le_rfl⟩
  le_total hx hy := by
    rw [le_iff_value_le (isNumber_of_le hx).1 (isNumber_of_le hy).1,
      le_iff_value_le (isNumber_of_le hy).1 (isNumber_of_le hx).1]
    exact le_total _ _
  le_trans hxy hyz := by
    rw [le_iff_value_le (isNumber_of_le hxy).1 (isNumber_of_le hyz).2]
    exact (value_le_of_le hxy).trans (value_le_of_le hyz)
  lt_iff {x y} := by
    by_cases hnumbers : IsNumber x ∧ IsNumber y
    · obtain ⟨hx, hy⟩ := hnumbers
      rw [lt_iff_value_lt hx hy, le_iff_value_le hx hy, le_iff_value_le hy hx]
      exact lt_iff_le_not_ge
    · exact iff_of_false (fun h => hnumbers (isNumber_of_compare (lt_iff_compare.mp h)))
        fun h => hnumbers (isNumber_of_le h.1)
  beq_iff {x y} := by
    by_cases hnumbers : IsNumber x ∧ IsNumber y
    · obtain ⟨hx, hy⟩ := hnumbers
      rw [beq_iff_value_eq hx hy, le_iff_value_le hx hy, le_iff_value_le hy hx]
      exact le_antisymm_iff
    · exact iff_of_false (fun h => hnumbers (isNumber_of_compare (beq_iff_compare.mp h)))
        fun h => hnumbers (isNumber_of_le h.1)

end HazardReach
