import HazardReach.Scalar

/-!
Piecewise linear curves through knots, continued past both ends along their last segments.
-/
namespace HazardReach

/-- Knots in ascending order, at least one. -/
structure Curve (α : Type) where
  first : α × α
  rest : List (α × α)

namespace Curve

variable {α : Type}

def ofKnots? : List (α × α) → Option (Curve α)
  | [] => none
  | first :: rest => some ⟨first, rest⟩

def knots (c : Curve α) : List (α × α) := c.first :: c.rest

theorem ofKnots?_eq_some_iff {knots : List (α × α)} {c : Curve α} :
    ofKnots? knots = some c ↔ knots = c.knots := by
  cases c
  cases knots <;> simp [ofKnots?, Curve.knots]

variable [Scalar α]

def line (p q : α × α) (x : α) : α := p.2 + (x - p.1) * (q.2 - p.2) / (q.1 - p.1)

/-- Moves on to the next segment as long as `x` has reached its left end. -/
def follow (x : α) (p q : α × α) : List (α × α) → α
  | [] => line p q x
  | r :: rest => if q.1 ≤ x then follow x q r rest else line p q x

/-- A single knot makes a constant curve. -/
def value (c : Curve α) (x : α) : α :=
  match c.rest with
  | [] => c.first.2
  | q :: rest => follow x c.first q rest

end Curve

end HazardReach
