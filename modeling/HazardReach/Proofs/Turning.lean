import HazardReach.Proofs.Lawful
import HazardReach.Proofs.Longitude

/-! Numbers in which longitudes are turned, with and without rounding. A whole turn is added and
taken away in order, so that numbers in order may come to be equal but never change places; the
meridians where frames begin and end are turned exactly. -/
namespace HazardReach

open Scalar

class TurningScalar (α : Type) [Scalar α] : Prop extends ComparedScalar α where
  neg_half_lt_zero : (-180 : α) < 0
  zero_lt_half : (0 : α) < 180
  half_le_turn : (180 : α) ≤ 360
  neg_half_add_turn : (-180 : α) + 360 = 180
  zero_add_turn : (0 : α) + 360 = 360
  half_add_sub_turn : (180 : α) + 360 - 360 = 180
  half_sub_turn : (180 : α) - 360 = -180
  turn_sub_turn : (360 : α) - 360 = 0
  add_turn_le {x y : α} : x ≤ y → x + 360 ≤ y + 360
  sub_turn_le {x y : α} : x ≤ y → x - 360 ≤ y - 360
  half_lt_add_turn {x : α} : -180 < x → 180 < x + 360
  emod_turn {x : α} : -180 ≤ x → x ≤ 180 → emod x 360 = if x < 0 then x + 360 else x
  turn_le_width {west east : α} : -180 ≤ west → west ≤ -180 → 180 ≤ east → east ≤ 180 →
    360 ≤ east - west
  /-- Edges a turn apart, by their difference, have every meridian between them but the date
  line. -/
  between_of_width {west east x : α} : -180 ≤ west → west ≤ 180 → -180 ≤ east → east ≤ 180 →
    360 ≤ east - west → -180 < x → x < 180 → west ≤ x ∧ x ≤ east

namespace Scalar

variable {α : Type} [Scalar α] [TurningScalar α] {x : α}

open ComparedScalar TurningScalar

theorem neg_half_le_zero : (-180 : α) ≤ 0 := le_of_lt neg_half_lt_zero

theorem zero_le_half : (0 : α) ≤ 180 := le_of_lt zero_lt_half

end Scalar

section Exact

variable {K : Type} [Field K] [LinearOrder K] [FloorRing K] [IsStrictOrderedRing K]

instance exactTurning : TurningScalar K where
  neg_half_lt_zero := show (-180 : K) < 0 by norm_num
  zero_lt_half := show (0 : K) < 180 by norm_num
  half_le_turn := show (180 : K) ≤ 360 by norm_num
  neg_half_add_turn := show (-180 : K) + 360 = 180 by norm_num
  zero_add_turn := show (0 : K) + 360 = 360 by norm_num
  half_add_sub_turn := show (180 : K) + 360 - 360 = 180 by norm_num
  half_sub_turn := show (180 : K) - 360 = -180 by norm_num
  turn_sub_turn := show (360 : K) - 360 = 0 by norm_num
  add_turn_le {x y} h := show x + (360 : K) ≤ y + 360 from add_le_add_left h 360
  sub_turn_le {x y} h := show x - (360 : K) ≤ y - 360 from sub_le_sub_right h 360
  half_lt_add_turn {x} h := by
    have h : (-180 : K) < x := h
    show (180 : K) < x + 360
    linarith
  emod_turn {x} hlow hhigh := by
    have hlow : (-180 : K) ≤ x := hlow
    have hhigh : x ≤ (180 : K) := hhigh
    exact Longitude.positive_eq (by linarith) (by linarith)
  turn_le_width {west east} _ hwest heast _ := by
    have hwest : west ≤ (-180 : K) := hwest
    have heast : (180 : K) ≤ east := heast
    show (360 : K) ≤ east - west
    linarith
  between_of_width {west east x} hwest _ _ heast hwidth hlow hhigh := by
    have hwest : (-180 : K) ≤ west := hwest
    have heast : east ≤ (180 : K) := heast
    have hwidth : (360 : K) ≤ east - west := hwidth
    have hlow : (-180 : K) < x := hlow
    have hhigh : x < (180 : K) := hhigh
    exact ⟨by linarith, by linarith⟩

end Exact

end HazardReach
