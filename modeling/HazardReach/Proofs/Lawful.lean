import HazardReach.Proofs.Exact

/-! Laws of numbers that hold with and without rounding. Sorting refines comparison, and numbers
that compare equal can be put in each other's place in sums, differences, products and numerators:
what comes of it compares equal again. -/
namespace HazardReach

theorem isEqv_self {β : Type} {r : β → β → Bool} {xs : List β} (h : ∀ x ∈ xs, r x x = true) :
    xs.isEqv xs r = true := by
  induction xs with
  | nil => rfl
  | cons x xs ih =>
    rw [List.forall_mem_cons] at h
    rw [List.isEqv, h.1, ih h.2]
    rfl

/-- Numbers that are the same or compare equal. -/
def Scalar.Alike {α : Type} [Scalar α] (x y : α) : Prop := x = y ∨ (x == y) = true

open Scalar

class LawfulScalar (α : Type) [Scalar α] : Prop where
  totalLE_total (x y : α) : (totalLE x y || totalLE y x) = true
  totalLE_trans (x y z : α) : totalLE x y = true → totalLE y z = true → totalLE x z = true
  beq_self {x : α} : isFinite x = true → (x == x) = true
  lt_of_totalLE {x y : α} : isFinite x = true → isFinite y = true → totalLE x y = true →
    (x == y) = false → x < y
  lt_trans {x y z : α} : isFinite x = true → isFinite y = true → isFinite z = true →
    x < y → y < z → x < z
  alike_add {x x' y y' : α} : Alike x x' → Alike y y' → Alike (x + y) (x' + y')
  alike_sub {x x' y y' : α} : Alike x x' → Alike y y' → Alike (x - y) (x' - y')
  alike_mul {x x' y y' : α} : Alike x x' → Alike y y' → Alike (x * y) (x' * y')
  alike_div {x x' : α} (y : α) : Alike x x' → Alike (x / y) (x' / y)
  /-- The sign of a zero is lost in a difference from something larger. -/
  sub_congr {x x' y y' : α} : x < y → Alike x x' → Alike y y' → y - x = y' - x'
  le_congr {x x' : α} (y : α) : Alike x x' → (x ≤ y ↔ x' ≤ y)

/-- Finite numbers of which no two are in order and equal at once. -/
class OrderedScalar (α : Type) [Scalar α] : Prop extends LawfulScalar α where
  beq_symm {x y : α} : isFinite x = true → isFinite y = true → (x == y) = true → (y == x) = true
  not_beq_of_lt {x y : α} : isFinite x = true → isFinite y = true → x < y → (x == y) = false
  neg_iff {x : α} : isFinite x = true → (x < 0 ↔ ¬0 ≤ x)

/-- Comparison orders the numbers of a carrier; what is no number does not compare with itself. -/
class ComparedScalar (α : Type) [Scalar α] : Prop where
  le_self_of_finite {x : α} : isFinite x = true → x ≤ x
  le_self {x y : α} : x ≤ y → x ≤ x ∧ y ≤ y
  le_total {x y : α} : x ≤ x → y ≤ y → x ≤ y ∨ y ≤ x
  le_trans {x y z : α} : x ≤ y → y ≤ z → x ≤ z
  lt_iff {x y : α} : x < y ↔ x ≤ y ∧ ¬y ≤ x
  beq_iff {x y : α} : (x == y) = true ↔ x ≤ y ∧ y ≤ x

namespace Scalar

variable {α : Type} [Scalar α] {x y : α}

theorem not_lt_of_lt [OrderedScalar α] (hx : isFinite x = true) (hy : isFinite y = true)
    (h : x < y) : ¬y < x := by
  intro hyx
  have hself := OrderedScalar.not_beq_of_lt hx hx (LawfulScalar.lt_trans hx hy hx h hyx)
  rw [LawfulScalar.beq_self hx] at hself
  contradiction

theorem isExtent_eq_false_iff [OrderedScalar α] :
    isExtent x = false ↔ isFinite x = false ∨ x < 0 := by
  unfold isExtent
  rw [Bool.and_eq_false_iff, decide_eq_false_iff_not]
  cases hx : isFinite x with
  | false => simp
  | true => simp [OrderedScalar.neg_iff hx]

theorem le_of_lt [ComparedScalar α] (h : x < y) : x ≤ y := (ComparedScalar.lt_iff.mp h).1

theorem not_lt_of_le [ComparedScalar α] (h : x ≤ y) : ¬y < x := by
  rw [ComparedScalar.lt_iff]
  exact fun hlt => hlt.2 h

theorem le_of_not_lt [ComparedScalar α] (hx : x ≤ x) (hy : y ≤ y) (h : ¬x < y) : y ≤ x := by
  rw [ComparedScalar.lt_iff, not_and, not_not] at h
  exact (ComparedScalar.le_total hx hy).elim h id

theorem lt_of_not_le [ComparedScalar α] (hx : x ≤ x) (hy : y ≤ y) (h : ¬x ≤ y) : y < x :=
  ComparedScalar.lt_iff.mpr ⟨(ComparedScalar.le_total hx hy).resolve_left h, h⟩

theorem lt_of_le_of_not_beq [ComparedScalar α] (h : x ≤ y) (hne : (x == y) = false) : x < y := by
  refine ComparedScalar.lt_iff.mpr ⟨h, ?_⟩
  intro hback
  rw [ComparedScalar.beq_iff.mpr ⟨h, hback⟩] at hne
  contradiction

theorem not_beq_comm [ComparedScalar α] (h : (x == y) = false) : (y == x) = false := by
  rw [Bool.eq_false_iff] at h ⊢
  exact fun hyx => h (ComparedScalar.beq_iff.mpr (ComparedScalar.beq_iff.mp hyx).symm)

theorem Alike.refl (x : α) : Alike x x := .inl rfl

theorem Alike.of_beq (h : (x == y) = true) : Alike x y := .inr h

end Scalar

section Exact

variable {K : Type} [Field K] [LinearOrder K] [FloorRing K]

theorem Scalar.alike_exact_iff {x y : K} : Alike x y ↔ x = y := by
  refine ⟨?_, .inl⟩
  rintro (h | h)
  · exact h
  · exact eq_of_beq h

instance exactLawful : LawfulScalar K where
  totalLE_total x y := by
    rw [Bool.or_eq_true]
    exact (le_total x y).imp decide_eq_true decide_eq_true
  totalLE_trans _ _ _ hxy hyz :=
    decide_eq_true ((of_decide_eq_true hxy).trans (of_decide_eq_true hyz))
  beq_self _ := beq_self_eq_true _
  lt_of_totalLE _ _ hle hne := lt_of_le_of_ne (of_decide_eq_true hle) (ne_of_beq_false hne)
  lt_trans _ _ _ hxy hyz := hxy.trans hyz
  alike_add hx hy := by
    rw [alike_exact_iff] at *
    rw [hx, hy]
  alike_sub hx hy := by
    rw [alike_exact_iff] at *
    rw [hx, hy]
  alike_mul hx hy := by
    rw [alike_exact_iff] at *
    rw [hx, hy]
  alike_div _ hx := by
    rw [alike_exact_iff] at *
    rw [hx]
  sub_congr _ hx hy := by
    rw [alike_exact_iff] at hx hy
    rw [hx, hy]
  le_congr _ hx := by
    rw [alike_exact_iff] at hx
    rw [hx]

instance exactOrdered : OrderedScalar K where
  beq_symm _ _ h := beq_iff_eq.mpr (eq_of_beq h).symm
  not_beq_of_lt _ _ h := beq_false_of_ne h.ne
  neg_iff _ := not_le.symm

instance exactCompared : ComparedScalar K where
  le_self_of_finite _ := le_rfl
  le_self _ := ⟨le_rfl, le_rfl⟩
  le_total _ _ := le_total _ _
  le_trans := le_trans
  lt_iff := lt_iff_le_not_ge
  beq_iff := beq_iff_eq.trans le_antisymm_iff

end Exact

end HazardReach
