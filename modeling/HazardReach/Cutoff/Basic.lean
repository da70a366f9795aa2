import HazardReach.Error

/-!
Distance cutoffs: a fixed distance, or a list of magnitudes and distances.

An accepted list is not empty, has finite magnitudes without repetition and finite distances that
are not negative, and is sorted by magnitude.
-/
namespace HazardReach

inductive Cutoff (α : Type) where
  | fixed (km : α)
  | byMagnitude (pairs : List (α × α))
  deriving Repr

namespace Cutoff

variable {α : Type}

section Check

variable [Scalar α]

def validPair (p : α × α) : Bool := Scalar.isFinite p.1 && Scalar.isExtent p.2

def sorted (pairs : List (α × α)) : List (α × α) :=
  pairs.mergeSort fun p q => Scalar.totalLE p.1 q.1

def repeated? : List (α × α) → Option α
  | p :: q :: rest => if p.1 == q.1 then some p.1 else repeated? (q :: rest)
  | _ => none

def check : Cutoff α → Except (EntryFault α) (Cutoff α)
  | fixed km => if Scalar.isExtent km then .ok (fixed km) else .error (.badDistance km)
  | byMagnitude pairs =>
    if pairs.isEmpty then .error .noPairs
    else match pairs.find? fun p => !validPair p with
      | some (magnitude, km) => .error (.badPair magnitude km)
      | none =>
        match repeated? (sorted pairs) with
        | some magnitude => .error (.repeatedMagnitude magnitude)
        | none => .ok (byMagnitude (sorted pairs))

/-- Agreement as the numbers themselves compare. -/
def same : Cutoff α → Cutoff α → Bool
  | fixed x, fixed y => x == y
  | byMagnitude ps, byMagnitude qs => ps.isEqv qs fun p q => p.1 == q.1 && p.2 == q.2
  | _, _ => false

end Check

section Display

variable [NumberText α]

open NumberText

def displayPair (p : α × α) : String := "(" ++ text p.1 ++ ", " ++ text p.2 ++ ")"

def display : Cutoff α → String
  | fixed km => text km
  | byMagnitude pairs => "[" ++ ", ".intercalate (pairs.map displayPair) ++ "]"

end Display

end Cutoff

end HazardReach
