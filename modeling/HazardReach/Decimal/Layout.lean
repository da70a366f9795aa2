import HazardReach.Decimal.Shortest

/-!
How the digits of a double are laid out: positionally or with an exponent, with the fewest digits
or with a fixed number of places.
-/
namespace HazardReach

structure Layout where
  tie : Tie
  /-- Whether a number with this many places before its point is written without an exponent. -/
  positional : Int → Bool
  whole : String
  nan : String
  infinity : String
  negativeInfinity : String

namespace Layout

def zeros (n : Nat) : String := String.ofList (List.replicate n '0')

/-- Digits with the point after the first `places` of them, padded with zeros on either side. -/
def place (layout : Layout) (digits : List Char) (places : Int) : String :=
  if places ≤ 0 then "0." ++ zeros (-places).toNat ++ String.ofList digits
  else if digits.length ≤ places.toNat then
    String.ofList digits ++ zeros (places.toNat - digits.length) ++ layout.whole
  else String.ofList (digits.take places.toNat) ++ "." ++ String.ofList (digits.drop places.toNat)

def scientific (digits : List Char) (exponent : Int) : String :=
  let fraction := digits.drop 1
  String.ofList (digits.take 1)
    ++ (if fraction.isEmpty then "" else "." ++ String.ofList fraction)
    ++ (if exponent < 0 then "e-" else "e+") ++ toString exponent.natAbs

def magnitude (layout : Layout) (d : Dyadic) : String :=
  if d.mantissa = 0 then "0" ++ layout.whole
  else
    let decimal := d.shortest layout.tie
    let digits := Nat.toDigits 10 decimal.digits
    let places := digits.length + decimal.exponent
    if layout.positional places then layout.place digits places
    else scientific digits (places - 1)

def write (layout : Layout) (x : Float) : String :=
  if x.isNaN then layout.nan
  else
    let d := Dyadic.ofFloat x
    if x.isInf then (if d.negative then layout.negativeInfinity else layout.infinity)
    else (if d.negative then "-" else "") ++ layout.magnitude d

/-- Messages write numbers out in full, with no point behind a whole number; a half goes up. -/
def message : Layout where
  tie := .up
  positional := fun _ => true
  whole := ""
  nan := "NaN"
  infinity := "inf"
  negativeInfinity := "-inf"

/-- The wire keeps a point in every number written out, and writes out those from `1e-5` up to
`1e16`; a half goes to the even neighbour. What is not finite has no number on the wire. -/
def wire : Layout where
  tie := .even
  positional := fun places => decide (-5 < places ∧ places ≤ 16)
  whole := ".0"
  nan := "null"
  infinity := "null"
  negativeInfinity := "null"

end Layout

/-- The nearest whole number to a quotient; a half goes to the even neighbour. -/
def roundedDiv (num den : Nat) : Nat :=
  let q := num / den
  let excess := 2 * (num % den)
  if den < excess || (excess == den && q % 2 == 1) then q + 1 else q

namespace Dyadic

def fixed (places : Nat) (d : Dyadic) : String :=
  let (num, den) := d.ratio
  let scaled := roundedDiv (num * Nat.pow 10 places) den
  let whole := toString (scaled / Nat.pow 10 places)
  let fraction := toString (scaled % Nat.pow 10 places)
  (if d.negative then "-" else "") ++ whole ++ "."
    ++ Layout.zeros (places - fraction.length) ++ fraction

/-- The largest power of ten not above the quotient, searched downwards from `k`. -/
def leadingPower (num den : Nat) : (fuel : Nat) → Int → Int
  | 0, k => k
  | fuel + 1, k =>
    if Nat.pow 10 k.toNat * den ≤ num * Nat.pow 10 (-k).toNat then k
    else leadingPower num den fuel (k - 1)

/-- One digit, `places` decimals and an exponent written without padding. -/
def scientific (places : Nat) (d : Dyadic) : String :=
  let (num, den) := d.ratio
  let k := leadingPower num den 5 d.decimalBound
  let shift := (places : Int) - k
  let scaled := roundedDiv (num * Nat.pow 10 shift.toNat) (den * Nat.pow 10 (-shift).toNat)
  let (scaled, k) :=
    if Nat.pow 10 (places + 1) ≤ scaled then (scaled / 10, k + 1) else (scaled, k)
  let digits := Nat.toDigits 10 scaled
  (if d.negative then "-" else "") ++ String.ofList (digits.take 1) ++ "."
    ++ String.ofList (digits.drop 1) ++ "e" ++ toString k

end Dyadic

end HazardReach
