/-!
A finite double is a whole number times a power of two.

`Dyadic.ofFloat` reads that form off the bits and `Dyadic.toFloat` packs it again, so that
remainders and decimal texts of doubles are computed in whole numbers.
-/
namespace HazardReach

/-- The number `± mantissa · 2 ^ exponent`. -/
structure Dyadic where
  negative : Bool
  mantissa : Nat
  exponent : Int
  deriving DecidableEq, Repr

namespace Dyadic

def fields (x : Float) : Bool × Nat × Nat :=
  let bits := x.toBits.toNat
  (Nat.pow 2 63 ≤ bits, bits / Nat.pow 2 52 % Nat.pow 2 11, bits % Nat.pow 2 52)

/-- The form of a finite double; the largest exponent field is read like any other. -/
def ofFloat (x : Float) : Dyadic :=
  let (negative, biased, fraction) := fields x
  if biased = 0 then ⟨negative, fraction, -1074⟩
  else ⟨negative, Nat.pow 2 52 + fraction, biased - 1075⟩

/-- Doubles are spaced evenly below this mantissa at every exponent but the smallest. -/
def hidden : Nat := Nat.pow 2 52

/-- The same number with a mantissa that has its leading bit at place 52, where the exponent range
allows it. -/
def normalize : (fuel : Nat) → Nat → Int → Nat × Int
  | 0, m, e => (m, e)
  | fuel + 1, m, e =>
    if m < hidden ∧ -1074 < e then normalize fuel (2 * m) (e - 1) else (m, e)

/-- The double equal to a dyadic number whose mantissa is below `2 ^ 53` and whose exponent is in
range. -/
def toFloat (d : Dyadic) : Float :=
  let sign := if d.negative then Nat.pow 2 63 else 0
  if d.mantissa = 0 then Float.ofBits (UInt64.ofNat sign)
  else
    let (m, e) := normalize 53 d.mantissa d.exponent
    let magnitude := if m < hidden then m else (e + 1075).toNat * Nat.pow 2 52 + (m - hidden)
    Float.ofBits (UInt64.ofNat (sign + magnitude))

def ratio (d : Dyadic) : Nat × Nat :=
  (d.mantissa * Nat.pow 2 d.exponent.toNat, Nat.pow 2 (-d.exponent).toNat)

/-- Remainder of the division truncated toward zero; it keeps the sign of `x`. -/
def tmod (x y : Dyadic) : Dyadic :=
  let e := min x.exponent y.exponent
  let a := x.mantissa * Nat.pow 2 (x.exponent - e).toNat
  let b := y.mantissa * Nat.pow 2 (y.exponent - e).toNat
  ⟨x.negative, a % b, e⟩

end Dyadic

end HazardReach
