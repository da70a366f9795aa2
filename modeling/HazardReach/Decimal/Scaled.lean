/-!
Reading a decimal as a double: the significand is rounded first and then scaled by powers of ten in
double arithmetic, so that a text of many digits may read as a neighbour of the nearest double.
-/
namespace HazardReach

def powerOfTen (n : Nat) : Float := Float.ofScientific 1 false n

def maxPower : Nat := 308

/-- The double for `significand · 10 ^ exponent`, absent when it overflows. Exponents below the
range of powers are scaled down twice, and past that nothing is left. -/
def scaledDouble? (significand : Nat) (exponent : Int) : Option Float :=
  let f := Float.ofNat significand
  let power := exponent.natAbs
  if 0 ≤ exponent then
    if power ≤ maxPower then
      let scaled := f * powerOfTen power
      if scaled.isInf then none else some scaled
    else if significand = 0 then some 0 else none
  else if power ≤ maxPower then some (f / powerOfTen power)
  else if power ≤ 2 * maxPower then
    some (f / powerOfTen maxPower / powerOfTen (power - maxPower))
  else some 0

end HazardReach
