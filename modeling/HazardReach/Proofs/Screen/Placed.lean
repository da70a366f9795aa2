import HazardReach.Proofs.Screen.Reach

/-! The box of a source as the index is asked for it. Moved into the frame it is the same arc, only
written from its west edge eastwards, and cut at the end of the frame it is still all there. None of
this depends on the latitudes, which are kept as they are. -/
namespace HazardReach

namespace Box

variable {K : Type} [Field K] [LinearOrder K]

/-- The edges are longitudes in use, whatever the latitudes. -/
structure EdgesInUse (b : Box K) : Prop where
  le_west : -180 ≤ b.west
  west_le : b.west ≤ 180
  le_east : -180 ≤ b.east
  east_le : b.east ≤ 180

/-- The longitudes of the box, at a single latitude. -/
def level (b : Box K) : Box K := { b with north := b.south }

theorem EdgesInUse.level [FloorRing K] {b : Box K} (h : b.EdgesInUse) : b.level.InRange :=
  inRange_iff.mpr ⟨⟨h.le_west, h.west_le⟩, ⟨h.le_east, h.east_le⟩, le_rfl⟩

@[simp] theorem level_width [FloorRing K] (b : Box K) : b.level.width = b.width := rfl

end Box

variable {K : Type} [Field K] [LinearOrder K] [FloorRing K]

namespace Frame

@[simp] theorem unwrap_level (frame : Frame) (b : Box K) : frame.unwrap b.level = frame.unwrap b :=
  rfl

theorem length_split (frame : Frame) (a : Box K) :
    (frame.split a).length = 1 ∨ (frame.split a).length = 2 := by
  unfold split
  split
  · exact .inl rfl
  · exact .inr rfl

variable [IsStrictOrderedRing K] {b : Box K}

theorem place_spec (frame : Frame) (hb : b.EdgesInUse) :
    (frame.west ≤ (frame.place b).west ∧ (frame.place b).west ≤ frame.east) ∧
      (frame = .positive → (frame.place b).west < 360) ∧
      (frame.place b).east = (frame.place b).west + b.width ∧
      (b.width = 360 ∨ ∃ k : ℤ, (frame.place b).west = b.west + 360 * k) := by
  obtain ⟨hwest, hwest', heast, hturns⟩ := frame.unwrap_spec hb.level
  rw [unwrap_level, Box.level_width] at heast hturns
  refine ⟨⟨hwest, hwest'⟩, ?_, heast, hturns⟩
  rintro rfl
  have hlt := unwrap_positive_lt hb.level
  rwa [unwrap_level] at hlt

theorem sum_width_split (frame : Frame) {a : Box K} (hwest : frame.west ≤ a.west)
    (hwest' : a.west ≤ frame.east) (hle : a.west ≤ a.east) (hturn : a.east ≤ a.west + 360) :
    ((frame.split a).map Box.width).sum = a.east - a.west := by
  have hordered : (frame.split a).map Box.width =
      (frame.split a).map fun rect => rect.east - rect.west := by
    apply List.map_congr_left
    intro rect hrect
    have hinside := frame.inside_of_mem_split hwest hwest' hle hturn hrect
    exact Box.width_of_not_wraps hinside.1.2.1.not_gt
  rw [hordered]
  unfold split
  split
  · simp
  · simp only [List.map_cons, List.map_nil, List.sum_cons, List.sum_nil]
    ring

end Frame

namespace Screen

variable [IsStrictOrderedRing K] {screen : Screen K} {source : Source K} {km : K} {b : Box K}

/-- The box that is asked for, and the rectangles that it is asked for in. -/
theorem affectedBox_spec (hkm : screen.cutoffs.get source.regionType none = .ok km)
    (hbox : source.box km = .ok b) (hb : b.EdgesInUse) :
    ∃ a, screen.affectedBox source = .ok a ∧ (a.south = b.south ∧ a.north = b.north) ∧
      (a.west ≤ a.east ∧ a.east - a.west = min b.width 360) ∧
      (if screen.movedLongitudes then 0 ≤ a.west ∧ a.west < 360
        else -180 ≤ a.west ∧ a.west ≤ 180) ∧
      (b.width = 360 ∨ ∃ k : ℤ, a.west = b.west + 360 * k) ∧
      ((screen.frame.split a).length = 1 ∨ (screen.frame.split a).length = 2) ∧
      (∀ rect ∈ screen.frame.split a, rect.west ≤ rect.east ∧ screen.frame.west ≤ rect.west ∧
        rect.east ≤ screen.frame.east ∧ rect.south = b.south ∧ rect.north = b.north) ∧
      ((screen.frame.split a).map Box.width).sum = a.east - a.west ∧
      screen.rectangle source = .ok ⟨(a.west, a.south), b.width, b.height⟩ ∧ 0 ≤ b.width ∧
        (b.south ≤ b.north → 0 ≤ b.height) := by
  obtain ⟨⟨hwest, hwest'⟩, hpositive, heast, hturns⟩ := screen.frame.place_spec hb
  have hwidth := hb.level.width_nonneg
  have hwidth' := hb.level.width_le
  rw [Box.level_width] at hwidth hwidth'
  have hle : (screen.frame.place b).west ≤ (screen.frame.place b).east := by
    linarith
  have hturn : (screen.frame.place b).east ≤ (screen.frame.place b).west + 360 := by
    linarith
  have hextent : (screen.frame.place b).east - (screen.frame.place b).west = b.width := by
    linarith
  have hplaced := affectedBox_eq hkm hbox
  refine ⟨screen.frame.place b, hplaced, ⟨rfl, rfl⟩, ⟨hle, ?_⟩, ?_, hturns,
    screen.frame.length_split _, ?_, screen.frame.sum_width_split hwest hwest' hle hturn, ?_,
    hwidth, sub_nonneg.mpr⟩
  · rw [hextent, min_eq_left hwidth']
  · unfold movedLongitudes
    cases hframe : screen.frame with
    | signed =>
      rw [hframe] at hwest hwest'
      exact ⟨hwest, hwest'⟩
    | positive =>
      rw [hframe] at hwest hpositive
      exact ⟨hwest, hpositive rfl⟩
  · intro rect hrect
    obtain ⟨⟨hin, hordered, hin'⟩, hlat⟩ :=
      screen.frame.inside_of_mem_split hwest hwest' hle hturn hrect
    exact ⟨hordered, hin, hin', hlat⟩
  · unfold rectangle
    rw [hplaced, ← hextent]
    rfl

theorem affectedBox_across_zero_meridian :
    ∃ (own : SiteCollection ℚ) (cutoffs : CutoffTable ℚ) (a : Box ℚ),
      own.toList = [⟨⟨0⟩, 179.5, 0, 0⟩, ⟨⟨1⟩, -179.5, 0, 0⟩] ∧
      (build (some own) cutoffs .scan).movedLongitudes = true ∧
      (build (some own) cutoffs .scan).affectedBox (.ofBox "box" "any" ⟨-10, -10, 10, 20⟩) =
        .ok a ∧
      a.west = 350 ∧ a.east = 370 ∧
      (build (some own) cutoffs .scan).rectangle (.ofBox "box" "any" ⟨-10, -10, 10, 20⟩) =
        .ok ⟨(350, -10), 20, 30⟩ := by
  obtain ⟨own, cutoffs, -, hlist, huse, hget⟩ :=
    exists_usesIndex (α := ℚ) [⟨⟨0⟩, 179.5, 0, 0⟩, ⟨⟨1⟩, -179.5, 0, 0⟩] .scan 100
      (fun _ _ => rfl) (by simp) (by decide) (by decide) (by decide)
  have hb : (⟨-10, -10, 10, 20⟩ : Box ℚ).EdgesInUse := by
    constructor <;> norm_num
  have hwidth : (⟨-10, -10, 10, 20⟩ : Box ℚ).width = 20 := by
    rw [Box.width_of_not_wraps] <;> norm_num
  have hheight : (⟨-10, -10, 10, 20⟩ : Box ℚ).height = 30 := by
    norm_num [Box.height]
  have hmoved : (build (some own) cutoffs .scan).movedLongitudes = true := by
    have hcross : Longitude.crossDateLine [179.5, (-179.5 : ℚ)] = true := by
      unfold Longitude.crossDateLine
      norm_num [Scalar.bounds?]
    unfold movedLongitudes
    rw [frame_build huse]
    unfold SiteCollection.frame SiteCollection.lons
    rw [hlist]
    simp only [List.map_cons, List.map_nil, hcross, if_true]
    rfl
  have hkm : (build (some own) cutoffs .scan).cutoffs.get
      (Source.ofBox "box" "any" (⟨-10, -10, 10, 20⟩ : Box ℚ)).regionType none = .ok 100 := hget _
  obtain ⟨a, ha, ⟨hsouth, -⟩, ⟨-, hextent⟩, hrange, hturns, -, -, -, hrectangle, -⟩ :=
    affectedBox_spec hkm rfl hb
  rw [hwidth] at hturns hextent hrectangle
  rw [hmoved, if_pos rfl] at hrange
  obtain ⟨k, hk⟩ := hturns.resolve_left (by norm_num)
  have hwest : a.west = 350 := by
    have hturn : (0 : ℚ) < k ∧ (k : ℚ) < 2 := ⟨by linarith, by linarith⟩
    norm_cast at hturn
    obtain rfl : k = 1 := by omega
    rw [hk]
    norm_num
  rw [hheight, hsouth, hwest] at hrectangle
  refine ⟨own, cutoffs, a, hlist, hmoved, ha, hwest, ?_, hrectangle⟩
  rw [min_eq_left (by norm_num)] at hextent
  linarith

end Screen

end HazardReach
