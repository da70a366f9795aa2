import HazardReach.Double
import HazardReach.Proofs.Frame.Edges

/-! Boxes that a frame resolves. Moving and unwrapping may round longitudes that are different onto
each other; where the edges of a box and a meridian are kept apart, the frame finds the meridian
just when the box spans it. -/
namespace HazardReach.Frame

variable {α : Type} [Scalar α]

/-- Moved into the frame, longitudes west of the zero meridian keep their order. -/
def Apart (frame : Frame) (y z : α) : Prop :=
  -180 ≤ y → y < z → z < 0 → frame.lon y < frame.lon z

/-- No rounding in the frame brings an edge of the box and the longitude together. -/
structure Resolves (frame : Frame) (b : Box α) (x : α) : Prop where
  edges : frame.Apart b.east b.west
  west : frame.Apart x b.west
  east : frame.Apart b.east x
  back : frame.lon x ≤ frame.lon b.east + 360 - 360 ↔ frame.lon x ≤ frame.lon b.east

/-- The box with its edges moved into the frame. -/
def moved (frame : Frame) (b : Box α) : Box α :=
  ⟨frame.lon b.west, b.south, frame.lon b.east, b.north⟩

@[simp] theorem moved_west (frame : Frame) (b : Box α) :
    (frame.moved b).west = frame.lon b.west := rfl

@[simp] theorem moved_east (frame : Frame) (b : Box α) :
    (frame.moved b).east = frame.lon b.east := rfl

theorem unwrap_of_narrow (frame : Frame) {b : Box α}
    (h : ¬(¬b.east < b.west ∧ 360 ≤ b.east - b.west)) :
    frame.unwrap b = (frame.lon b.west,
      if frame.lon b.east < frame.lon b.west then frame.lon b.east + 360
      else frame.lon b.east) := by
  rw [unwrap_eq, if_neg h]

variable [TurningScalar α] {b : Box α} {x y z : α}

open Scalar ComparedScalar TurningScalar

theorem east_sub_turn (frame : Frame) : (frame.east : α) - 360 = frame.west := by
  cases frame with
  | signed => exact half_sub_turn
  | positive => exact turn_sub_turn

theorem lon_of_neg (hlow : -180 ≤ x) (hneg : x < 0) : positive.lon x = x + 360 := by
  have hhigh : x ≤ 180 := le_trans (le_of_lt hneg) zero_le_half
  change emod x 360 = x + 360
  rw [emod_turn hlow hhigh, if_pos hneg]

theorem lon_of_nonneg (hzero : 0 ≤ x) (hhigh : x ≤ 180) : positive.lon x = x := by
  change emod x 360 = x
  rw [emod_turn (le_trans neg_half_le_zero hzero) hhigh, if_neg (not_lt_of_le hzero)]

theorem not_lon_le_west (frame : Frame) (hlow : -180 < x) (hhigh : x ≤ 180)
    (hzero : (x == 0) = false) : ¬frame.lon x ≤ frame.west := by
  cases frame with
  | signed => exact (lt_iff.mp hlow).2
  | positive =>
    intro hle
    change _ ≤ 0 at hle
    by_cases hneg : x < 0
    · rw [lon_of_neg (le_of_lt hlow) hneg] at hle
      have hhalf := half_le_add_turn (le_of_lt hlow)
      exact (lt_iff.mp zero_lt_half).2 (le_trans hhalf hle)
    · have hself := (le_self hhigh).1
      have hnonneg := le_of_not_lt hself (le_self zero_le_half).1 hneg
      rw [lon_of_nonneg hnonneg hhigh] at hle
      exact (lt_iff.mp (lt_of_le_of_not_beq hnonneg (not_beq_comm hzero))).2 hle

theorem finds_iff_moved (frame : Frame) (hb : b.InRange)
    (hnarrow : ¬(¬b.east < b.west ∧ 360 ≤ b.east - b.west)) (hlow : -180 < x) (hhigh : x ≤ 180)
    (hzero : (x == 0) = false)
    (hback : frame.lon x ≤ frame.lon b.east + 360 - 360 ↔ frame.lon x ≤ frame.lon b.east) :
    frame.Finds b x ↔ (frame.moved b).Spans (frame.lon x) := by
  have hx := frame.lon_mem (le_of_lt hlow) hhigh
  have he := frame.lon_mem hb.east.1 hb.east.2
  have hpast := frame.east_le_add_turn he.1
  have hplace := unwrap_of_narrow frame hnarrow
  unfold Finds split
  rw [place_east, hplace]
  by_cases hwraps : frame.lon b.east < frame.lon b.west
  · rw [Box.spans_of_wraps hwraps, moved_west, moved_east]
    by_cases hinside : frame.lon b.east + 360 ≤ frame.east
    · -- The east edge is at the west end of the frame, and its turn is lost.
      have hend : ¬frame.lon x ≤ frame.lon b.east := by
        intro hle
        have hturned := sub_turn_le hinside
        rw [east_sub_turn] at hturned
        exact frame.not_lon_le_west hlow hhigh hzero (le_trans (hback.mpr hle) hturned)
      simp only [hinside, if_true, List.mem_singleton, exists_eq_left, place_west, place_east,
        hplace, hwraps, le_trans hx.2 hpast, hend, and_true, or_false]
    · simp only [hinside, if_false, List.mem_cons, List.not_mem_nil, or_false, exists_eq_or_imp,
        exists_eq_left, place_west, hplace, hwraps, if_true, hx.2, and_true, east_sub_turn, hx.1,
        true_and, hback]
  · rw [Box.spans_of_not_wraps hwraps, moved_west, moved_east]
    simp only [he.2, if_true, List.mem_singleton, exists_eq_left, place_west, place_east, hplace,
      hwraps, if_false]

theorem Apart.lt_iff (h : positive.Apart y z) (hy : -180 ≤ y ∧ y < 0) (hz : -180 ≤ z ∧ z < 0) :
    positive.lon y < positive.lon z ↔ y < z := by
  refine ⟨?_, fun hlt => h hy.1 hlt hz.2⟩
  intro hlt
  apply lt_of_not_le (le_self hz.1).2 (le_self hy.1).2
  intro hle
  have hturned := add_turn_le hle
  rw [lon_of_neg hy.1 hy.2, lon_of_neg hz.1 hz.2] at hlt
  exact (ComparedScalar.lt_iff.mp hlt).2 hturned

theorem Apart.le_iff (h : positive.Apart y z) (hy : -180 ≤ y ∧ y < 0) (hz : -180 ≤ z ∧ z < 0) :
    positive.lon z ≤ positive.lon y ↔ z ≤ y := by
  apply Iff.intro
  · intro hle
    apply le_of_not_lt (le_self hy.1).2 (le_self hz.1).2
    intro hlt
    exact not_lt_of_le hle (h hy.1 hlt hz.2)
  · intro hle
    rw [lon_of_neg hy.1 hy.2, lon_of_neg hz.1 hz.2]
    exact add_turn_le hle

theorem neg_or_nonneg (hlow : -180 ≤ x) (hhigh : x ≤ 180) :
    (-180 ≤ x ∧ x < 0) ∨ (0 ≤ x ∧ x ≤ 180) := by
  by_cases h : x < 0
  · exact .inl ⟨hlow, h⟩
  · exact .inr ⟨le_of_not_lt (le_self hlow).2 (le_self zero_le_half).1 h, hhigh⟩

theorem lon_past (hy : -180 ≤ y ∧ y < 0) (hz : 0 ≤ z ∧ z ≤ 180) :
    (y ≤ z ∧ ¬z ≤ y ∧ y < z ∧ ¬z < y) ∧ z ≤ positive.lon y ∧ ¬positive.lon y < z := by
  have hyz : y ≤ z := le_trans (le_of_lt hy.2) hz.1
  have hzy : ¬z ≤ y := fun h => (lt_iff.mp hy.2).2 (le_trans hz.1 h)
  have hle : z ≤ y + 360 := le_trans hz.2 (half_le_add_turn hy.1)
  rw [lon_of_neg hy.1 hy.2]
  exact ⟨⟨hyz, hzy, lt_iff.mpr ⟨hyz, hzy⟩, not_lt_of_le hyz⟩, hle, not_lt_of_le hle⟩

theorem lon_lt_past (hy : -180 ≤ y ∧ y < 0) (hz : 0 ≤ z ∧ z ≤ 180)
    (hoff : -180 < y ∨ z < 180) : z < positive.lon y ∧ ¬positive.lon y ≤ z := by
  have hnot : ¬positive.lon y ≤ z := by
    rw [lon_of_neg hy.1 hy.2]
    intro hback
    rcases hoff with hoff | hoff
    · exact (lt_iff.mp (half_lt_add_turn hoff)).2 (le_trans hback hz.2)
    · exact (lt_iff.mp hoff).2 (le_trans (half_le_add_turn hy.1) hback)
  exact ⟨lt_iff.mpr ⟨(lon_past hy hz).2.1, hnot⟩, hnot⟩

theorem edges_off_date_line (hw : -180 ≤ b.west ∧ b.west < 0) (he : 0 ≤ b.east ∧ b.east ≤ 180)
    (hnarrow : ¬(¬b.east < b.west ∧ 360 ≤ b.east - b.west)) :
    -180 < b.west ∨ b.east < 180 := by
  by_contra hon
  rw [not_or] at hon
  have hwest := le_of_not_lt (le_self neg_half_le_zero).1 (le_self hw.1).2 hon.1
  have heast := le_of_not_lt (le_self he.2).1 (le_self he.2).2 hon.2
  have hturn : 360 ≤ b.east - b.west := turn_le_width hw.1 hwest heast he.2
  exact hnarrow ⟨(lon_past hw he).1.2.2.2, hturn⟩

/-- The edges of a box narrower than a turn are moved around the longitude in their order. -/
theorem spans_moved_iff (hb : b.InRange)
    (hnarrow : ¬(¬b.east < b.west ∧ 360 ≤ b.east - b.west)) (hlow : -180 < x) (hhigh : x < 180)
    (h : positive.Resolves b x) : (positive.moved b).Spans (positive.lon x) ↔ b.Spans x := by
  have hside := neg_or_nonneg (le_of_lt hlow) (le_of_lt hhigh)
  rw [Box.spans_iff_or, Box.spans_iff_or, moved_west, moved_east]
  rcases neg_or_nonneg hb.west.1 hb.west.2 with hw | hw
  · rcases neg_or_nonneg hb.east.1 hb.east.2 with he | he
    · -- Both edges are moved.
      rw [h.edges.lt_iff he hw]
      rcases hside with hx | hx
      · rw [h.west.le_iff hx hw, h.east.le_iff he hx]
      · rw [lon_of_nonneg hx.1 hx.2]
        simp [lon_past hw hx, lon_lt_past hw hx (.inr hhigh), lon_past he hx]
    · -- The west edge is moved past the east edge.
      have hoff := edges_off_date_line hw he hnarrow
      rw [lon_of_nonneg he.1 he.2]
      rcases hside with hx | hx
      · rw [h.west.le_iff hx hw]
        simp [lon_past hw he, lon_lt_past hw he hoff, lon_past hx he,
          lon_lt_past hx he (.inl hlow)]
      · rw [lon_of_nonneg hx.1 hx.2]
        simp [lon_past hw he, lon_lt_past hw he hoff, lon_past hw hx,
          lon_lt_past hw hx (.inr hhigh)]
  · rw [lon_of_nonneg hw.1 hw.2]
    rcases neg_or_nonneg hb.east.1 hb.east.2 with he | he
    · -- The east edge is moved past the west edge, so that the box does not wrap any more.
      rcases hside with hx | hx
      · rw [h.east.le_iff he hx]
        simp [lon_past he hw, lon_past hx hw]
      · rw [lon_of_nonneg hx.1 hx.2]
        simp [lon_past he hw, lon_past he hx]
    · -- Neither edge is moved.
      rw [lon_of_nonneg he.1 he.2]
      rcases hside with hx | hx
      · simp [lon_past hx hw, lon_past hx he, lon_lt_past hx he (.inl hlow)]
      · rw [lon_of_nonneg hx.1 hx.2]

theorem finds_of_wide (frame : Frame) (hwide : ¬b.east < b.west ∧ 360 ≤ b.east - b.west)
    (hlow : -180 ≤ x) (hhigh : x ≤ 180) : frame.Finds b x := by
  have hx := frame.lon_mem hlow hhigh
  have hplace : frame.unwrap b = (frame.west, frame.east) := by
    rw [unwrap_eq, if_pos hwide]
  refine ⟨frame.place b, ?_, ?_⟩
  · unfold split
    have hend : (frame.east : α) ≤ frame.east := (le_self hx.2).2
    rw [place_east, hplace, if_pos hend]
    exact List.mem_singleton_self _
  · rw [place_west, place_east, hplace]
    exact hx

/-- Off the cut, a frame that resolves a box and a longitude finds the longitude where the box
spans it. -/
theorem finds_iff_spans (frame : Frame) (hb : b.InRange) (hlow : -180 < x) (hhigh : x < 180)
    (hzero : (x == 0) = false) (h : frame.Resolves b x) : frame.Finds b x ↔ b.Spans x := by
  by_cases hwide : ¬b.east < b.west ∧ 360 ≤ b.east - b.west
  · have hspans := between_of_width hb.west.1 hb.west.2 hb.east.1 hb.east.2 hwide.2 hlow hhigh
    rw [Box.spans_of_not_wraps hwide.1]
    exact iff_of_true (frame.finds_of_wide hwide (le_of_lt hlow) (le_of_lt hhigh)) hspans
  · rw [finds_iff_moved frame hb hwide hlow (le_of_lt hhigh) hzero h.back]
    cases frame with
    | signed => exact Iff.rfl
    | positive => exact spans_moved_iff hb hwide hlow hhigh h

section DateLine

theorem lon_half : ∀ frame : Frame, frame.lon (180 : α) = 180
  | signed => rfl
  | positive => lon_of_nonneg zero_le_half (le_self zero_le_half).2

theorem lon_neg_half : ∀ frame : Frame, frame.lon (-180 : α) = 180 ∨ frame.lon (-180 : α) = -180
  | signed => .inr rfl
  | positive => by
    rw [lon_of_neg (le_self neg_half_le_zero).1 neg_half_lt_zero]
    exact .inl neg_half_add_turn

theorem neg_half_lt_half : (-180 : α) < 180 := by
  refine lt_iff.mpr ⟨le_trans neg_half_le_zero zero_le_half, ?_⟩
  exact fun hle => (lt_iff.mp neg_half_lt_zero).2 (le_trans zero_le_half hle)

theorem lon_dateLine (frame : Frame) (h : x = 180 ∨ x = -180) :
    frame.lon x = 180 ∨ frame.lon x = -180 := by
  rcases h with rfl | rfl
  · exact .inl (lon_half frame)
  · exact lon_neg_half frame

theorem resolves_dateLine (frame : Frame) (hwest : b.west = 180 ∨ b.west = -180)
    (heast : b.east = 180 ∨ b.east = -180) (x : α) : frame.Resolves b x := by
  have hhalf : ¬(180 : α) < 0 := not_lt_of_le zero_le_half
  have hends (y : α) (hy : -180 ≤ y) (hlt : y < b.west) (hneg : b.west < 0) : False := by
    rcases hwest with hwest | hwest <;> rw [hwest] at hlt hneg
    · exact hhalf hneg
    · exact not_lt_of_le hy hlt
  constructor
  case edges => exact fun hy hlt hneg => (hends _ hy hlt hneg).elim
  case west => exact fun hy hlt hneg => (hends _ hy hlt hneg).elim
  case east =>
    intro _ hlt hneg
    rcases heast with heast | heast <;> rw [heast] at hlt ⊢
    · exact absurd (le_trans (le_of_lt hlt) (le_of_lt hneg)) (lt_iff.mp zero_lt_half).2
    · cases frame with
      | signed => exact hlt
      | positive =>
        rw [lon_of_neg (le_of_lt hlt) hneg,
          lon_of_neg (le_self neg_half_le_zero).1 neg_half_lt_zero, neg_half_add_turn]
        exact half_lt_add_turn hlt
  case back =>
    rcases frame.lon_dateLine heast with hlon | hlon <;> rw [hlon]
    · rw [half_add_sub_turn]
    · rw [neg_half_add_turn, half_sub_turn]

theorem narrow_of_dateLine (hwest : b.west = 180) (heast : b.east = 180 ∨ b.east = -180) :
    ¬(¬b.east < b.west ∧ 360 ≤ b.east - b.west) := by
  have hhalf : -180 ≤ (180 : α) ∧ (180 : α) ≤ 180 :=
    ⟨le_of_lt neg_half_lt_half, (le_self zero_le_half).2⟩
  intro hwide
  rcases heast with heast | heast <;> rw [hwest, heast] at hwide
  · have hmiddle := between_of_width hhalf.1 hhalf.2 hhalf.1 hhalf.2 hwide.2 neg_half_lt_zero
      zero_lt_half
    exact (lt_iff.mp zero_lt_half).2 hmiddle.1
  · exact hwide.1 neg_half_lt_half

theorem finds_dateLine_iff (frame : Frame) (hwest : b.west = 180)
    (heast : b.east = 180 ∨ b.east = -180) :
    frame.Finds b x ↔ 180 ≤ frame.lon x ∧ frame.lon x ≤ 180 := by
  have hself : (180 : α) ≤ 180 := (le_self zero_le_half).2
  have hunwrap : frame.unwrap b = (180, 180) := by
    rw [unwrap_of_narrow frame (narrow_of_dateLine hwest heast), hwest, lon_half]
    rcases frame.lon_dateLine heast with hlon | hlon <;> rw [hlon]
    · rw [if_neg (not_lt_of_le hself)]
    · rw [if_pos neg_half_lt_half, neg_half_add_turn]
  have hinside : (180 : α) ≤ frame.east := by
    cases frame with
    | signed => exact hself
    | positive => exact half_le_turn
  unfold Finds split
  rw [place_east, hunwrap, if_pos hinside]
  simp only [List.mem_singleton, exists_eq_left, place_west, place_east, hunwrap]

end DateLine

section Exact

variable {K : Type} [Field K] [LinearOrder K] [FloorRing K] [IsStrictOrderedRing K]

/-- Without rounding every frame resolves everything. -/
theorem resolves_exact (frame : Frame) (b : Box K) (x : K) : frame.Resolves b x := by
  have hapart (y z : K) : frame.Apart y z := by
    intro hy hlt hneg
    cases frame with
    | signed => exact hlt
    | positive =>
      rw [lon_of_neg hy (hlt.trans hneg), lon_of_neg (hy.trans hlt.le) hneg]
      exact add_lt_add_left hlt 360
  exact ⟨hapart _ _, hapart _ _, hapart _ _, by rw [add_sub_cancel_right]⟩

end Exact

/-- Doubles close enough to the zero meridian are both moved to the end of the frame. -/
example : ¬positive.Resolves (⟨-10, -10, -2e-14, 10⟩ : Box Float) (-1e-14) := by
  intro h
  have hlt := h.east (by decide) (by decide) (by decide)
  exact absurd hlt (by decide +kernel)

end HazardReach.Frame
