import HazardReach.Proofs.Box.Arc
import HazardReach.Proofs.Frame.Edges

/-! What a frame finds of a box. Unwrapping keeps the width of a box and moves its west edge by
whole turns; cut at the east end of the frame, the rectangles hold the meridians of the arc. The
exception is the cut itself, where an edge of the box may be written on the other side. -/
namespace HazardReach.Frame

variable {K : Type} [Field K] [LinearOrder K]

/-- The meridian at which the frame is cut open. -/
def OnCut : Frame → K → Prop
  | signed, x => x = -180 ∨ x = 180
  | positive, x => x = 0

/-- The meridian lies on the cut, and an edge of the box is written on the far side of it. -/
def Misses : Frame → Box K → K → Prop
  | signed, b, x => x = -180 ∧ b.east = -180 ∧ b.east < b.west
  | positive, b, x => x = 0 ∧ b.east = 0 ∧ b.west ≠ 0

theorem Misses.onCut {frame : Frame} {b : Box K} {x : K} (h : frame.Misses b x) :
    frame.OnCut x := by
  cases frame with
  | signed => exact .inl h.1
  | positive => exact h.1

omit [LinearOrder K] in
theorem OnCut.eq_or {frame : Frame} {x : K} (h : frame.OnCut x) : x = 0 ∨ x = -180 ∨ x = 180 := by
  cases frame with
  | signed => exact .inr h
  | positive => exact .inl h

variable [FloorRing K]

/-- The meridian and an edge of the box both lie on the cut, and the box is not a full turn. -/
structure Grazes (frame : Frame) (b : Box K) (x : K) : Prop where
  onCut : frame.OnCut x
  width_lt : b.width < 360
  edge : frame.OnCut b.west ∨ frame.OnCut b.east

theorem east_eq (frame : Frame) : (frame.east : K) = frame.west + 360 := by
  cases frame
  · change (180 : K) = -180 + 360
    norm_num
  · change (360 : K) = 0 + 360
    norm_num

variable [IsStrictOrderedRing K]

theorem lon_spec (frame : Frame) {x : K} (hlow : -180 ≤ x) (hhigh : x ≤ 180) :
    frame.west ≤ frame.lon x ∧ frame.lon x ≤ frame.east ∧ ∃ k : ℤ, frame.lon x = x + 360 * k := by
  cases frame with
  | signed => exact ⟨hlow, hhigh, 0, by simp [lon]⟩
  | positive =>
    have h := Longitude.positive_spec x
    exact ⟨h.1, h.2.1.le, h.2.2⟩

theorem lt_lon_of_not_onCut (frame : Frame) {x : K} (hlow : -180 ≤ x) (hhigh : x ≤ 180)
    (hcut : ¬frame.OnCut x) : frame.west < frame.lon x ∧ frame.lon x < frame.east := by
  cases frame with
  | signed =>
    have h := not_or.mp hcut
    exact ⟨lt_of_le_of_ne hlow (Ne.symm h.1), lt_of_le_of_ne hhigh h.2⟩
  | positive =>
    exact ⟨Longitude.positive_pos hlow hhigh hcut, (Longitude.positive_spec x).2.1⟩

private theorem eq_of_turns {x y : K} {m : ℤ} (h : x = y + 360 * m) (hx : 0 ≤ x) (hx' : x < 360)
    (hy : 0 ≤ y) (hy' : y < 360) : x = y := by
  have hturn : (-1 : K) < m ∧ (m : K) < 1 := ⟨by linarith, by linarith⟩
  norm_cast at hturn
  have hzero : m = 0 := by omega
  simpa [hzero] using h

theorem unwrap_of_full (frame : Frame) {b : Box K} (hb : b.InRange) (h : b.width = 360) :
    frame.unwrap b = (frame.west, frame.east) := by
  have hedges := hb.edges_of_width_eq h
  have hwide : (!b.wraps && decide (360 ≤ b.east - b.west)) = true := by
    simp only [Box.wraps, hedges.1, hedges.2]
    norm_num
  unfold unwrap
  rw [if_pos hwide]

theorem unwrap_of_lt (frame : Frame) {b : Box K} (h : b.width < 360) :
    frame.unwrap b = match frame with
      | signed => (b.west, if b.east < b.west then b.east + 360 else b.east)
      | positive =>
        (Longitude.positive b.west,
          if Longitude.positive b.east < Longitude.positive b.west then
            Longitude.positive b.east + 360
          else Longitude.positive b.east) := by
  have hwide : ¬(¬b.east < b.west ∧ 360 ≤ b.east - b.west) := by
    intro hwide
    rw [Box.width_of_not_wraps hwide.1] at h
    linarith [hwide.2]
  unfold unwrap
  rw [if_neg (by simpa [Box.wraps] using hwide)]
  cases frame
  · simp [Box.wraps]
  · rfl

theorem unwrap_spec (frame : Frame) {b : Box K} (hb : b.InRange) :
    frame.west ≤ (frame.unwrap b).1 ∧ (frame.unwrap b).1 ≤ frame.east ∧
      (frame.unwrap b).2 = (frame.unwrap b).1 + b.width ∧
      (b.width = 360 ∨ ∃ k : ℤ, (frame.unwrap b).1 = b.west + 360 * k) := by
  rcases hb.width_le.eq_or_lt with hfull | hlt
  · rw [unwrap_of_full frame hb hfull, hfull]
    have hframe : (frame.west : K) ≤ frame.east := by
      rw [east_eq]
      linarith
    exact ⟨le_rfl, hframe, east_eq frame, .inl rfl⟩
  rw [unwrap_of_lt frame hlt]
  cases frame with
  | signed =>
    refine ⟨hb.le_west, hb.west_le, ?_, .inr ⟨0, by simp⟩⟩
    by_cases hwraps : b.east < b.west
    · rw [Box.width_of_wraps hwraps]
      simp only [hwraps, if_true]
      ring
    · rw [Box.width_of_not_wraps hwraps]
      simp only [hwraps, if_false]
      ring
  | positive =>
    obtain ⟨hp, hp', k, hk⟩ := Longitude.positive_spec b.west
    obtain ⟨hq, hq', l, hl⟩ := Longitude.positive_spec b.east
    obtain ⟨c, hc⟩ := b.width_turns
    refine ⟨hp, hp'.le, ?_, .inr ⟨k, hk⟩⟩
    by_cases hlt' : Longitude.positive b.east < Longitude.positive b.west
    · have h : Longitude.positive b.east + 360 - Longitude.positive b.west = b.width :=
        eq_of_turns (m := l - k + 1 - c) (by rw [hk, hl, hc]; push_cast; ring)
          (by linarith) (by linarith) hb.width_nonneg hlt
      simp only [hlt', if_true]
      linarith
    · have h : Longitude.positive b.east - Longitude.positive b.west = b.width :=
        eq_of_turns (m := l - k - c) (by rw [hk, hl, hc]; push_cast; ring)
          (by linarith) (by linarith) hb.width_nonneg hlt
      simp only [hlt', if_false]
      linarith

/-- The rectangles together hold what lies between the edges, the east one taken a turn back where
it is past the end of the frame. -/
theorem finds_iff (frame : Frame) {b : Box K} {x : K} (hlow : -180 ≤ x) (hhigh : x ≤ 180) :
    frame.Finds b x ↔
      ((frame.unwrap b).1 ≤ frame.lon x ∧ frame.lon x ≤ (frame.unwrap b).2) ∨
        frame.east < (frame.unwrap b).2 ∧ frame.lon x ≤ (frame.unwrap b).2 - 360 := by
  have hX := frame.lon_spec hlow hhigh
  have hframe := east_eq (K := K) frame
  unfold Finds split
  by_cases h : (frame.unwrap b).2 ≤ frame.east
  · rw [place_east, if_pos h]
    simp [h.not_gt]
  · rw [place_east, if_neg h]
    have hpast := not_le.mp h
    simp only [List.mem_cons, List.not_mem_nil, or_false, exists_eq_or_imp, exists_eq_left,
      place_west]
    refine or_congr (and_congr_right fun _ => ?_) (and_congr ?_ Iff.rfl)
    · exact ⟨fun h => h.trans hpast.le, fun _ => hX.2.1⟩
    · change frame.east - 360 ≤ frame.lon x ↔ frame.east < (frame.unwrap b).2
      exact ⟨fun _ => hpast, fun _ => by linarith [hX.1]⟩

theorem unwrap_positive_lt {b : Box K} (hb : b.InRange) : (positive.unwrap b).1 < 360 := by
  rcases hb.width_le.eq_or_lt with hfull | hlt
  · rw [unwrap_of_full positive hb hfull]
    change (0 : K) < 360
    norm_num
  · rw [unwrap_of_lt positive hlt]
    exact (Longitude.positive_spec b.west).2.1

theorem inside_of_mem_split (frame : Frame) {a rect : Box K} (hwest : frame.west ≤ a.west)
    (hwest' : a.west ≤ frame.east) (hle : a.west ≤ a.east) (hturn : a.east ≤ a.west + 360)
    (hrect : rect ∈ frame.split a) :
    (frame.west ≤ rect.west ∧ rect.west ≤ rect.east ∧ rect.east ≤ frame.east) ∧
      rect.south = a.south ∧ rect.north = a.north := by
  have hframe := east_eq (K := K) frame
  unfold split at hrect
  split at hrect
  · rename_i hshort
    rw [List.mem_singleton.mp hrect]
    exact ⟨⟨hwest, hle, hshort⟩, rfl, rfl⟩
  · rename_i hpast
    rw [not_le] at hpast
    simp only [List.mem_cons, List.not_mem_nil, or_false] at hrect
    rcases hrect with rfl | rfl
    · exact ⟨⟨hwest, hwest', le_rfl⟩, rfl, rfl⟩
    · exact ⟨⟨by linarith, by linarith, by linarith⟩, rfl, rfl⟩

theorem finds_iff_onArc (frame : Frame) {b : Box K} {x : K} (hb : b.InRange) (hlow : -180 ≤ x)
    (hhigh : x ≤ 180) (hcut : ¬frame.OnCut x) : frame.Finds b x ↔ b.OnArc x := by
  obtain ⟨hX, hX', l, hl⟩ := frame.lon_spec hlow hhigh
  obtain ⟨hw, hw', he, hturn⟩ := frame.unwrap_spec hb
  have hoff := (frame.lt_lon_of_not_onCut hlow hhigh hcut).1
  have hoff' := (frame.lt_lon_of_not_onCut hlow hhigh hcut).2
  have hframe := east_eq (K := K) frame
  have hwidth := hb.width_le
  have hwidth' := hb.width_nonneg
  rw [finds_iff frame hlow hhigh, he]
  rcases hturn with hfull | ⟨k, hk⟩
  · have hedges := hb.edges_of_width_eq hfull
    have hon : b.OnArc x := by
      refine ⟨0, ?_, ?_⟩ <;> simp only [hfull, hedges.1] <;> push_cast <;> linarith
    simp only [hon, iff_true, hfull]
    rcases le_or_gt (frame.unwrap b).1 (frame.lon x) with h | h
    · exact .inl ⟨h, by linarith⟩
    · exact .inr ⟨by linarith, by linarith⟩
  apply Iff.intro
  · intro h
    rcases h with h | h
    · exact ⟨l - k, by push_cast; linarith [h.1], by push_cast; linarith [h.2]⟩
    · exact ⟨l - k + 1, by push_cast; linarith, by push_cast; linarith [h.2]⟩
  · -- Seen from the frame, the arc begins inside it and the meridian lies strictly inside it.
    intro h
    obtain ⟨m, hm, hm'⟩ := h
    have hlow : (frame.unwrap b).1 ≤ frame.lon x + 360 * ((m - l + k : ℤ) : K) := by
      push_cast
      linarith
    have hhigh : frame.lon x + 360 * ((m - l + k : ℤ) : K) ≤ (frame.unwrap b).1 + b.width := by
      push_cast
      linarith
    generalize m - l + k = n at hlow hhigh
    have hturns : (-1 : K) < n ∧ (n : K) < 2 := ⟨by linarith, by linarith⟩
    norm_cast at hturns
    have hn : n = 0 ∨ n = 1 := by omega
    rcases hn with rfl | rfl
    · push_cast at hlow hhigh
      exact .inl ⟨by linarith, by linarith⟩
    · push_cast at hlow hhigh
      exact .inr ⟨by linarith, by linarith⟩

theorem finds_of_full (frame : Frame) {b : Box K} {x : K} (hb : b.InRange) (hfull : b.width = 360)
    (hlow : -180 ≤ x) (hhigh : x ≤ 180) : frame.Finds b x := by
  have hX := frame.lon_spec hlow hhigh
  rw [finds_iff frame hlow hhigh, unwrap_of_full frame hb hfull]
  exact .inl ⟨hX.1, hX.2.1⟩

private theorem not_misses_of_full (frame : Frame) {b : Box K} {x : K} (hb : b.InRange)
    (hfull : b.width = 360) : ¬frame.Misses b x := by
  have he := (hb.edges_of_width_eq hfull).2
  intro h
  cases frame with
  | signed =>
    have heast := he.symm.trans h.2.1
    norm_num at heast
  | positive =>
    have heast := he.symm.trans h.2.1
    norm_num at heast

private theorem finds_signed_iff {b : Box K} {x : K} (hb : b.InRange) (hlt : b.width < 360)
    (hlow : -180 ≤ x) (hhigh : x ≤ 180) :
    signed.Finds b x ↔
      if b.east < b.west then b.west ≤ x ∨ -180 < b.east ∧ x ≤ b.east
      else b.west ≤ x ∧ x ≤ b.east := by
  have he := hb.le_east
  have he' := hb.east_le
  have heast : (signed.east : K) = 180 := rfl
  have hlon : signed.lon x = x := rfl
  rw [finds_iff signed hlow hhigh, unwrap_of_lt signed hlt, heast, hlon]
  by_cases hwraps : b.east < b.west
  · simp only [hwraps, if_true]
    apply or_congr
    · exact and_iff_left (by linarith)
    · exact and_congr ⟨fun h => by linarith, fun h => by linarith⟩
        ⟨fun h => by linarith, fun h => by linarith⟩
  · simp only [hwraps, if_false]
    exact or_iff_left fun h => he'.not_gt h.1

private theorem finds_positive_zero_iff {b : Box K} (hb : b.InRange) (hlt : b.width < 360) :
    positive.Finds b 0 ↔
      b.west = 0 ∨ b.east ≠ 0 ∧ Longitude.positive b.east < Longitude.positive b.west := by
  have hp := Longitude.positive_spec b.west
  have hq := Longitude.positive_spec b.east
  have heast : (positive.east : K) = 360 := rfl
  have hlon : positive.lon (0 : K) = 0 := Longitude.positive_zero
  rw [finds_iff positive (by norm_num) (by norm_num), unwrap_of_lt positive hlt, heast, hlon]
  apply Iff.intro
  · intro h
    rcases h with h | h
    · by_cases hwest : b.west = 0
      · exact .inl hwest
      · exact absurd h.1 (Longitude.positive_pos hb.le_west hb.west_le hwest).not_ge
    · by_cases hback : Longitude.positive b.east < Longitude.positive b.west
      · simp only [hback, if_true] at h
        refine .inr ⟨?_, hback⟩
        intro hzero
        rw [hzero, Longitude.positive_zero] at h
        linarith [h.1]
      · simp only [hback, if_false] at h
        exact absurd h.1 hq.2.1.not_gt
  · intro h
    rcases h with hwest | h
    · simp only [hwest, Longitude.positive_zero, hq.1.not_gt, if_false]
      exact .inl ⟨le_rfl, hq.1⟩
    · have hpos := Longitude.positive_pos hb.le_east hb.east_le h.1
      simp only [h.2, if_true]
      exact .inr ⟨by linarith, by linarith⟩

theorem finds_iff_of_contains (frame : Frame) {b : Box K} {x lat : K} (hb : b.InRange)
    (hlow : -180 ≤ x) (hhigh : x ≤ 180) (h : b.contains x lat = true) :
    frame.Finds b x ↔ ¬frame.Misses b x := by
  by_cases hcut : frame.OnCut x
  swap
  · have hfinds := (finds_iff_onArc frame hb hlow hhigh hcut).mpr
      (hb.onArc_of_contains hlow hhigh h)
    exact iff_of_true hfinds fun hmiss => hcut hmiss.onCut
  rcases hb.width_le.eq_or_lt with hfull | hlt
  · exact iff_of_true (finds_of_full frame hb hfull hlow hhigh) (not_misses_of_full frame hb hfull)
  cases frame with
  | signed =>
    have h := (Box.contains_iff.mp h).2
    have he := hb.le_east
    rw [finds_signed_iff hb hlt hlow hhigh]
    by_cases hwraps : b.east < b.west
    · rw [if_pos hwraps] at h ⊢
      apply Iff.intro
      · intro hfinds hmiss
        have hx := hmiss.1
        have heast := hmiss.2.1
        rcases hfinds with hfinds | hfinds <;> linarith
      · intro hmiss
        refine h.imp_right fun h => ⟨lt_of_le_of_ne he ?_, h⟩
        intro heast
        exact hmiss ⟨by linarith, heast.symm, hwraps⟩
    · rw [if_neg hwraps] at h ⊢
      exact iff_of_true h fun hmiss => hwraps hmiss.2.2
  | positive =>
    have hzero : x = 0 := hcut
    rw [hzero] at h ⊢
    have harc : b.OnArc 0 := hb.onArc_of_contains (by norm_num) (by norm_num) h
    rw [finds_positive_zero_iff hb hlt]
    apply Iff.intro
    · intro hfinds hmiss
      rcases hfinds with hfinds | hfinds
      · exact hmiss.2.2 hfinds
      · exact hfinds.1 hmiss.2.1
    · intro hmiss
      by_cases hwest : b.west = 0
      · exact .inl hwest
      · have heast : b.east ≠ 0 := fun heast => hmiss ⟨rfl, heast, hwest⟩
        exact .inr ⟨heast, (hb.onArc_zero_iff hlt hwest heast).mp harc⟩

theorem finds_iff_onArc_of_not_grazes (frame : Frame) {b : Box K} {x : K} (hb : b.InRange)
    (hlow : -180 ≤ x) (hhigh : x ≤ 180) (hgrazes : ¬frame.Grazes b x) :
    frame.Finds b x ↔ b.OnArc x := by
  by_cases hcut : frame.OnCut x
  swap
  · exact finds_iff_onArc frame hb hlow hhigh hcut
  rcases hb.width_le.eq_or_lt with hfull | hlt
  · have hedges := hb.edges_of_width_eq hfull
    exact iff_of_true (finds_of_full frame hb hfull hlow hhigh)
      (Box.onArc_of_full hedges.1 hedges.2)
  have hedges : ¬frame.OnCut b.west ∧ ¬frame.OnCut b.east := by
    rw [← not_or]
    intro hedges
    exact hgrazes ⟨hcut, hlt, hedges⟩
  cases frame with
  | signed =>
    have hwest : -180 < b.west := lt_of_le_of_ne hb.le_west fun h => hedges.1 (.inl h.symm)
    have heast : -180 < b.east := lt_of_le_of_ne hb.le_east fun h => hedges.2 (.inl h.symm)
    have heast' : b.east < 180 := lt_of_le_of_ne hb.east_le fun h => hedges.2 (.inr h)
    rw [finds_signed_iff hb hlt hlow hhigh, hb.onArc_dateLine_iff hcut hwest heast']
    split
    · rename_i hwraps
      rw [iff_true_right hwraps]
      rcases hcut with rfl | rfl
      · exact .inr ⟨heast, heast.le⟩
      · exact .inl hb.west_le
    · rename_i hwraps
      rw [iff_false_right hwraps]
      intro hx
      rcases hcut with rfl | rfl
      · exact hwest.not_ge hx.1
      · exact heast'.not_ge hx.2
  | positive =>
    have hzero : x = 0 := hcut
    rw [hzero, finds_positive_zero_iff hb hlt, hb.onArc_zero_iff hlt hedges.1 hedges.2]
    apply Iff.intro
    · intro h
      exact (h.resolve_left hedges.1).2
    · intro h
      exact .inr ⟨hedges.2, h⟩

end HazardReach.Frame
