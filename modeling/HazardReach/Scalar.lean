/-!
The numbers in which coordinates, distances and magnitudes are given.

Geometry, tables and screens are written over `Scalar` and `Trig`, so that the definitions that run
on doubles are the same ones that are studied over exact fields. A carrier may hold values that
compare with nothing: every comparison below is a decision of the carrier, and `min` and `max` are
its own.
-/
namespace HazardReach

class Scalar (α : Type) extends Add α, Sub α, Mul α, Div α, Neg α, LE α, LT α, BEq α,
    Min α, Max α where
  ofNat : Nat → α
  abs : α → α
  /-- Remainder of the division with a remainder in `[0, |divisor|)`. -/
  emod : α → α → α
  isFinite : α → Bool
  /-- A total order that refines `≤`; lists of numbers are sorted by it. -/
  totalLE : α → α → Bool
  decLE : DecidableLE α
  decLT : DecidableLT α

-- Where a carrier has operations of its own, they are written before those of the class.
attribute [instance (low)] Scalar.toAdd Scalar.toSub Scalar.toMul Scalar.toDiv Scalar.toNeg
  Scalar.toLE Scalar.toLT Scalar.toBEq Scalar.toMin Scalar.toMax

instance (priority := low) Scalar.instDecidableLE {α : Type} [Scalar α] (x y : α) :
    Decidable (x ≤ y) :=
  Scalar.decLE x y

instance (priority := low) Scalar.instDecidableLT {α : Type} [Scalar α] (x y : α) :
    Decidable (x < y) :=
  Scalar.decLT x y

instance (priority := 50) Scalar.instOfNat {α : Type} [Scalar α] (n : Nat) : OfNat α n :=
  ⟨Scalar.ofNat n⟩

class Trig (α : Type) where
  pi : α
  sin : α → α
  cos : α → α
  asin : α → α
  /-- Angle of the vector `(x, y)`, given as `atan2 y x`. -/
  atan2 : α → α → α
  sqrt : α → α
  hypot : α → α → α

class NumberText (α : Type) where
  /-- The form used in messages and listings. -/
  text : α → String
  wire : α → String
  /-- The value of `± significand · 10 ^ exponent`, absent when it is out of range. -/
  ofDecimal? : (negative : Bool) → (significand : Nat) → (exponent : Int) → Option α

namespace Scalar

variable {α : Type} [Scalar α]

/-- The value of `x` moved into `[lo, hi]`; undefined when the bounds are not in order. -/
def clamp? (x lo hi : α) : Option α :=
  if lo ≤ hi then
    some (if x < lo then lo else if hi < x then hi else x)
  else none

/-- Smallest and largest value, taken from the left; absent for no values. -/
def bounds? : List α → Option (α × α)
  | [] => none
  | x :: xs => some (xs.foldl (fun b y => (min b.1 y, max b.2 y)) (x, x))

def isExtent (x : α) : Bool := isFinite x && decide ((0 : α) ≤ x)

end Scalar

namespace Trig

variable {α : Type} [Scalar α] [Trig α]

def toRadians (degrees : α) : α := degrees * (pi / 180)

def toDegrees (radians : α) : α := radians * (180 / pi)

end Trig

end HazardReach
