import HazardReach.Proofs.Exact
import HazardReach.Sphere.Box

/-! Boxes in range, over any numbers: edges within a turn of each other, and latitudes in order. -/
namespace HazardReach.Box

variable {α : Type} [Scalar α]

structure InRange (b : Box α) : Prop where
  west : -180 ≤ b.west ∧ b.west ≤ 180
  east : -180 ≤ b.east ∧ b.east ≤ 180
  lat : b.south ≤ b.north

/-- The longitude lies between the edges, on either side of the date line if the box wraps. -/
def Spans (b : Box α) (lon : α) : Prop :=
  if b.east < b.west then b.west ≤ lon ∨ lon ≤ b.east else b.west ≤ lon ∧ lon ≤ b.east

theorem spans_of_wraps {b : Box α} {lon : α} (h : b.east < b.west) :
    b.Spans lon ↔ b.west ≤ lon ∨ lon ≤ b.east := by
  rw [Spans, if_pos h]

theorem spans_of_not_wraps {b : Box α} {lon : α} (h : ¬b.east < b.west) :
    b.Spans lon ↔ b.west ≤ lon ∧ lon ≤ b.east := by
  rw [Spans, if_neg h]

theorem spans_iff_or {b : Box α} {lon : α} :
    b.Spans lon ↔ b.east < b.west ∧ (b.west ≤ lon ∨ lon ≤ b.east) ∨
      ¬b.east < b.west ∧ b.west ≤ lon ∧ lon ≤ b.east := by
  by_cases h : b.east < b.west
  · simp [spans_of_wraps h, h]
  · simp [spans_of_not_wraps h, h]

theorem contains_iff_spans {b : Box α} {lon lat : α} :
    b.contains lon lat = true ↔ (b.south ≤ lat ∧ lat ≤ b.north) ∧ b.Spans lon := by
  unfold contains wraps Spans
  by_cases h : b.east < b.west <;> simp [h]

section Exact

variable {K : Type} [Field K] [LinearOrder K] [FloorRing K] {b : Box K}

theorem inRange_iff : b.InRange ↔
    (-180 ≤ b.west ∧ b.west ≤ 180) ∧ (-180 ≤ b.east ∧ b.east ≤ 180) ∧ b.south ≤ b.north :=
  ⟨fun h => ⟨h.west, h.east, h.lat⟩, fun h => ⟨h.1, h.2.1, h.2.2⟩⟩

theorem InRange.le_west (hb : b.InRange) : -180 ≤ b.west := (inRange_iff.mp hb).1.1

theorem InRange.west_le (hb : b.InRange) : b.west ≤ 180 := (inRange_iff.mp hb).1.2

theorem InRange.le_east (hb : b.InRange) : -180 ≤ b.east := (inRange_iff.mp hb).2.1.1

theorem InRange.east_le (hb : b.InRange) : b.east ≤ 180 := (inRange_iff.mp hb).2.1.2

theorem InRange.south_le_north (hb : b.InRange) : b.south ≤ b.north := (inRange_iff.mp hb).2.2

end Exact

end HazardReach.Box
