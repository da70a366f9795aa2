import HazardReach.Sphere.Longitude
import Mathlib.Algebra.Order.Floor.Ring
import Mathlib.Tactic.Linarith
import Mathlib.Tactic.NormNum
import Mathlib.Tactic.Ring

/-! Exact numbers: any ordered field with a floor carries the scalar operations, every number is
finite and nothing is rounded. Division by zero gives zero. The definitions over scalars are then
equations of the field, which hold by unfolding. -/
namespace HazardReach

theorem Scalar.isExtent_iff {α : Type} [Scalar α] {x : α} :
    Scalar.isExtent x = true ↔ Scalar.isFinite x = true ∧ 0 ≤ x := by
  rw [isExtent, Bool.and_eq_true, decide_eq_true_eq]

variable {K : Type} [Field K] [LinearOrder K] [FloorRing K]

instance exactScalar : Scalar K where
  toAdd := inferInstance
  toSub := inferInstance
  toMul := inferInstance
  toDiv := inferInstance
  toNeg := inferInstance
  toLE := inferInstance
  toLT := inferInstance
  toBEq := inferInstance
  toMin := inferInstance
  toMax := inferInstance
  ofNat
    | 0 => 0
    | 1 => 1
    | n + 2 => ((n + 2 : ℕ) : K)
  abs x := |x|
  emod x y := x - |y| * ⌊x / |y|⌋
  isFinite _ := true
  totalLE x y := decide (x ≤ y)
  decLE := inferInstance
  decLT := inferInstance

@[simp] theorem Scalar.abs_exact (x : K) : Scalar.abs x = |x| := rfl

theorem Scalar.isExtent_exact_iff {x : K} : Scalar.isExtent x = true ↔ 0 ≤ x := by
  rw [isExtent_iff]
  exact and_iff_right rfl

private theorem foldl_bounds {A : Type} [LinearOrder A] (xs : List A) (b : A × A) :
    let r := xs.foldl (fun b y => (min b.1 y, max b.2 y)) b
    (r.1 ≤ b.1 ∧ b.2 ≤ r.2 ∧ ∀ x ∈ xs, r.1 ≤ x ∧ x ≤ r.2) ∧
      (r.1 = b.1 ∨ r.1 ∈ xs) ∧ (r.2 = b.2 ∨ r.2 ∈ xs) := by
  induction xs generalizing b with
  | nil => simp
  | cons y ys ih =>
    have hlow := (ih (min b.1 y, max b.2 y)).1.1
    have hhigh := (ih (min b.1 y, max b.2 y)).1.2.1
    have hall := (ih (min b.1 y, max b.2 y)).1.2.2
    simp only [List.foldl_cons, List.mem_cons, forall_eq_or_imp]
    refine ⟨⟨hlow.trans (min_le_left _ _), (le_max_left _ _).trans hhigh,
      ⟨hlow.trans (min_le_right _ _), (le_max_right _ _).trans hhigh⟩, hall⟩, ?_, ?_⟩
    · rcases (ih (min b.1 y, max b.2 y)).2.1 with h | h
      · rcases min_choice b.1 y with hm | hm
        · exact .inl (h.trans hm)
        · exact .inr (.inl (h.trans hm))
      · exact .inr (.inr h)
    · rcases (ih (min b.1 y, max b.2 y)).2.2 with h | h
      · rcases max_choice b.2 y with hm | hm
        · exact .inl (h.trans hm)
        · exact .inr (.inl (h.trans hm))
      · exact .inr (.inr h)

theorem Scalar.bounds?_eq_some {xs : List K} {low high : K}
    (h : Scalar.bounds? xs = some (low, high)) :
    low ∈ xs ∧ high ∈ xs ∧ ∀ x ∈ xs, low ≤ x ∧ x ≤ high := by
  cases xs with
  | nil => simp [Scalar.bounds?] at h
  | cons x xs =>
    have hr : xs.foldl (fun b y => (min b.1 y, max b.2 y)) (x, x) = (low, high) :=
      Option.some.inj h
    have hbounds := foldl_bounds xs (x, x)
    simp only [hr] at hbounds
    simp only [List.mem_cons, forall_eq_or_imp]
    exact ⟨hbounds.2.1, hbounds.2.2, ⟨hbounds.1.1, hbounds.1.2.1⟩, hbounds.1.2.2⟩

theorem Scalar.exists_bounds? {xs : List K} (h : xs ≠ []) :
    ∃ low high, Scalar.bounds? xs = some (low, high) := by
  cases xs with
  | nil => contradiction
  | cons x xs => exact ⟨_, _, rfl⟩

theorem Scalar.bounds?_congr {xs ys : List K} (h : ∀ x, x ∈ xs ↔ x ∈ ys) :
    Scalar.bounds? xs = Scalar.bounds? ys := by
  by_cases hxs : xs = []
  · have hys : ys = [] := List.eq_nil_iff_forall_not_mem.mpr fun x hx => by
      simpa [hxs] using (h x).mpr hx
    rw [hxs, hys]
  · obtain ⟨x, hx⟩ := List.exists_mem_of_ne_nil _ hxs
    obtain ⟨low, high, hbounds⟩ := exists_bounds? hxs
    obtain ⟨low', high', hbounds'⟩ := exists_bounds? (List.ne_nil_of_mem ((h x).mp hx))
    obtain ⟨hlow, hhigh, hall⟩ := bounds?_eq_some hbounds
    obtain ⟨hlow', hhigh', hall'⟩ := bounds?_eq_some hbounds'
    have hlows : low = low' :=
      le_antisymm (hall low' ((h _).mpr hlow')).1 (hall' low ((h _).mp hlow)).1
    have hhighs : high = high' :=
      le_antisymm (hall' high ((h _).mp hhigh)).2 (hall high' ((h _).mpr hhigh')).2
    rw [hbounds, hbounds', hlows, hhighs]

end HazardReach
