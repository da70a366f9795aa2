import HazardReach.Decimal.Layout
import HazardReach.Decimal.Scaled
import HazardReach.Scalar

/-!
Doubles as scalars.

`min` and `max` ignore an operand that is not a number, and give the second of two equal operands.
The remainder is computed on dyadic forms and is exact before its correction by the divisor. The
total order sorts by bit pattern: negative numbers first, `-0` before `0`.
-/
namespace HazardReach.Double

def minimum (x y : Float) : Float :=
  if y.isNaN then x else if x < y then x else y

def maximum (x y : Float) : Float :=
  if y.isNaN then x else if y < x then x else y

def notANumber : Float := 0 / 0

def infinity : Float := 1 / 0

def tmod (x y : Float) : Float :=
  if x.isNaN || y.isNaN || x.isInf || y == 0 then notANumber
  else if y.isInf then x
  else ((Dyadic.ofFloat x).tmod (Dyadic.ofFloat y)).toFloat

def emod (x y : Float) : Float :=
  let r := tmod x y
  if r < 0 then r + y.abs else r

def orderKey (x : Float) : Int :=
  let (negative, biased, fraction) := Dyadic.fields x
  let magnitude : Int := biased * Dyadic.hidden + fraction
  if negative then -magnitude - 1 else magnitude

def twoTo (exponent : Int) : Float := Dyadic.toFloat ⟨false, 1, exponent⟩

/-- The root of `x² + y²` for `0 ≤ y ≤ x` far from overflow and underflow, with one correction by
the rounding error of the sum of squares. -/
def diagonal (x y : Float) : Float :=
  let h := (x * x + y * y).sqrt
  let error :=
    if h ≤ 2 * y then
      let delta := h - y
      x * (2 * delta - x) + (delta - 2 * (x - y)) * delta
    else
      let delta := h - x
      2 * delta * (x - 2 * y) + ((4 * delta - y) * y + delta * delta)
  h - error / (2 * h)

/-- The same for any finite parts in order, which are scaled where their squares would leave the
range. -/
def scaledDiagonal (long short : Float) : Float :=
  if short ≤ long * twoTo (-54) then long + short
  else if twoTo 511 < long then
    diagonal (long * twoTo (-600)) (short * twoTo (-600)) / twoTo (-600)
  else if short < twoTo (-459) then
    diagonal (long / twoTo (-600)) (short / twoTo (-600)) * twoTo (-600)
  else diagonal long short

/-- Length of a vector. No rounding leaves it shorter than its longer part. -/
def length (x y : Float) : Float :=
  if x.isInf || y.isInf then infinity
  else if x.isNaN || y.isNaN then notANumber
  else
    let long := maximum x.abs y.abs
    maximum long (scaledDiagonal long (minimum x.abs y.abs))

end HazardReach.Double

namespace HazardReach

instance : Scalar Float where
  min := Double.minimum
  max := Double.maximum
  ofNat := Float.ofNat
  abs := Float.abs
  emod := Double.emod
  isFinite := Float.isFinite
  totalLE x y := decide (Double.orderKey x ≤ Double.orderKey y)
  decLE := Float.decLe
  decLT := Float.decLt

instance : Trig Float where
  pi := 3.141592653589793
  sin := Float.sin
  cos := Float.cos
  asin := Float.asin
  atan2 := Float.atan2
  sqrt := Float.sqrt
  hypot := Double.length

instance : NumberText Float where
  text := Layout.message.write
  wire := Layout.wire.write
  ofDecimal? negative significand exponent :=
    (scaledDouble? significand exponent).map fun x => if negative then -x else x

end HazardReach
