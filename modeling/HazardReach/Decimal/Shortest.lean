import HazardReach.Decimal.Dyadic

/-!
The fewest decimal digits that read back.

A decimal reads back as a double when it lies in the interval of numbers that round to it. Among
the grids of step `10 ^ k`, the coarsest one that meets the interval gives the fewest digits, and
of its points the nearest to the double is taken.
-/
namespace HazardReach

structure Decimal where
  digits : Nat
  exponent : Int
  deriving DecidableEq, Repr

inductive Tie where
  | even
  | up
  deriving DecidableEq, Repr

/-- The numbers that round to `value`, all over one denominator. -/
structure RoundingInterval where
  low : Nat
  value : Nat
  high : Nat
  denominator : Nat
  closed : Bool

namespace Dyadic

/-- Neighbours are half as far below a power of two as above it. -/
def interval (d : Dyadic) : RoundingInterval :=
  let e := d.exponent - 2
  let scale := Nat.pow 2 e.toNat
  let gap := if d.mantissa = hidden ∧ -1074 < d.exponent then 1 else 2
  { low := (4 * d.mantissa - gap) * scale
    value := 4 * d.mantissa * scale
    high := (4 * d.mantissa + 2) * scale
    denominator := Nat.pow 2 (-e).toNat
    closed := d.mantissa % 2 = 0 }

def exactDecimal (d : Dyadic) : Decimal :=
  if 0 ≤ d.exponent then ⟨d.mantissa * Nat.pow 2 d.exponent.toNat, 0⟩
  else ⟨d.mantissa * Nat.pow 5 (-d.exponent).toNat, d.exponent⟩

/-- A power of ten above the number, within a factor of a hundred. -/
def decimalBound (d : Dyadic) : Int :=
  ((d.mantissa.log2 + 1 : Nat) + d.exponent) * 30103 / 100000 + 1

end Dyadic

namespace RoundingInterval

/-- The multiple of `10 ^ k` that stands for the interval, if the grid meets it. -/
def onGrid? (i : RoundingInterval) (tie : Tie) (k : Int) : Option Nat :=
  let finer := Nat.pow 10 (-k).toNat
  let step := Nat.pow 10 k.toNat * i.denominator
  let c := i.value * finer / step
  let inside (c : Nat) : Bool :=
    if i.closed then i.low * finer ≤ c * step && c * step ≤ i.high * finer
    else i.low * finer < c * step && c * step < i.high * finer
  match inside c, inside (c + 1) with
  | false, false => none
  | true, false => some c
  | false, true => some (c + 1)
  | true, true =>
    let excess := 2 * (i.value * finer - c * step)
    if excess < step then some c
    else if step < excess then some (c + 1)
    else match tie with
      | .up => some (c + 1)
      | .even => some (if c % 2 = 0 then c else c + 1)

/-- The first hit on grids of step `10 ^ k`, `10 ^ (k - 1)`, … -/
def firstGrid? (i : RoundingInterval) (tie : Tie) : (fuel : Nat) → Int → Option Decimal
  | 0, _ => none
  | fuel + 1, k =>
    match i.onGrid? tie k with
    | some c => some ⟨c, k⟩
    | none => i.firstGrid? tie fuel (k - 1)

end RoundingInterval

/-- Seventeen digits always read back, so the search ends within twenty grids. -/
def Dyadic.shortest (tie : Tie) (d : Dyadic) : Decimal :=
  (d.interval.firstGrid? tie 25 d.decimalBound).getD d.exactDecimal

end HazardReach
