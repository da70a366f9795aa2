import HazardReach.Proofs.Box.Range
import HazardReach.Proofs.Turning
import HazardReach.Screen.Frame

/-! Edges in a frame, with and without rounding. Moved into the frame, an edge may be rounded onto
either end of it, but a box in range is always unwrapped eastwards, and cut into rectangles with
their edges in order. -/
namespace HazardReach.Frame

section Finds

variable {α : Type} [Scalar α]

/-- The longitude under which a site is indexed. -/
def lon : Frame → α → α
  | signed, x => x
  | positive, x => Longitude.positive x

/-- Some rectangle of the box holds the meridian. -/
def Finds (frame : Frame) (b : Box α) (x : α) : Prop :=
  ∃ rect ∈ frame.split (frame.place b), rect.west ≤ frame.lon x ∧ frame.lon x ≤ rect.east

theorem unwrap_eq (frame : Frame) (b : Box α) :
    frame.unwrap b = if ¬b.east < b.west ∧ 360 ≤ b.east - b.west then (frame.west, frame.east)
      else (frame.lon b.west,
        if frame.lon b.east < frame.lon b.west then frame.lon b.east + 360
        else frame.lon b.east) := by
  unfold unwrap
  by_cases hwide : ¬b.east < b.west ∧ 360 ≤ b.east - b.west
  · rw [if_pos hwide, if_pos (by simpa [Box.wraps] using hwide)]
  · rw [if_neg hwide, if_neg (by simpa [Box.wraps] using hwide)]
    cases frame with
    | signed =>
      simp only [Box.wraps, decide_eq_true_eq]
      rfl
    | positive => rfl

@[simp] theorem place_west (frame : Frame) (b : Box α) :
    (frame.place b).west = (frame.unwrap b).1 := rfl

@[simp] theorem place_east (frame : Frame) (b : Box α) :
    (frame.place b).east = (frame.unwrap b).2 := rfl

end Finds

variable {α : Type} [Scalar α] [TurningScalar α] {b rect : Box α} {x : α}

open Scalar ComparedScalar TurningScalar

theorem west_le_east (frame : Frame) : (frame.west : α) ≤ frame.east := by
  cases frame with
  | signed => exact le_trans neg_half_le_zero zero_le_half
  | positive => exact le_trans zero_le_half half_le_turn

theorem half_le_add_turn (h : -180 ≤ x) : 180 ≤ x + 360 := by
  have hle := add_turn_le h
  rwa [neg_half_add_turn] at hle

theorem lon_mem (frame : Frame) (hlow : -180 ≤ x) (hhigh : x ≤ 180) :
    frame.west ≤ frame.lon x ∧ frame.lon x ≤ frame.east := by
  cases frame with
  | signed => exact ⟨hlow, hhigh⟩
  | positive =>
    change 0 ≤ Longitude.positive x ∧ Longitude.positive x ≤ 360
    rw [Longitude.positive, emod_turn hlow hhigh]
    split
    · rename_i hneg
      have hle := add_turn_le (le_of_lt hneg)
      rw [zero_add_turn] at hle
      exact ⟨le_trans zero_le_half (half_le_add_turn hlow), hle⟩
    · rename_i hnonneg
      exact ⟨le_of_not_lt (le_self hlow).2 (le_self zero_le_half).1 hnonneg,
        le_trans hhigh half_le_turn⟩

theorem west_add_turn (frame : Frame) : (frame.west : α) + 360 = frame.east := by
  cases frame with
  | signed => exact neg_half_add_turn
  | positive => exact zero_add_turn

theorem east_le_add_turn (frame : Frame) (h : frame.west ≤ x) : frame.east ≤ x + 360 := by
  rw [← west_add_turn frame]
  exact add_turn_le h

theorem unwrap_mem (frame : Frame) (hb : b.InRange) :
    (frame.unwrap b).1 ≤ frame.east ∧ (frame.unwrap b).1 ≤ (frame.unwrap b).2 := by
  have hw := frame.lon_mem hb.west.1 hb.west.2
  have he := frame.lon_mem hb.east.1 hb.east.2
  rw [unwrap_eq]
  split
  · exact ⟨west_le_east frame, west_le_east frame⟩
  refine ⟨hw.2, ?_⟩
  dsimp only
  split
  · exact le_trans hw.2 (frame.east_le_add_turn he.1)
  · rename_i hback
    exact le_of_not_lt (le_self he.1).2 (le_self hw.1).2 hback

theorem edges_of_mem_split (frame : Frame) (hb : b.InRange)
    (hrect : rect ∈ frame.split (frame.place b)) :
    rect.west ≤ rect.east ∧ rect.south = b.south ∧ rect.north = b.north := by
  obtain ⟨hwest, hle⟩ := frame.unwrap_mem hb
  unfold split at hrect
  split at hrect
  · rw [List.mem_singleton.mp hrect]
    exact ⟨hle, rfl, rfl⟩
  · rename_i hpast
    simp only [List.mem_cons, List.not_mem_nil, or_false] at hrect
    rcases hrect with rfl | rfl
    · exact ⟨hwest, rfl, rfl⟩
    · have hpast := lt_of_not_le (le_self hle).2 (le_self hwest).2 hpast
      exact ⟨sub_turn_le (le_of_lt hpast), rfl, rfl⟩

end HazardReach.Frame
