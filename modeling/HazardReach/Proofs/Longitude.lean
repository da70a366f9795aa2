import HazardReach.Proofs.Exact

/-! Exact longitudes. The remainder of a whole turn is decided by the turn a number lies in; on the
longitudes in use, and on their differences, this makes `positive` and `extent` piecewise linear. -/
namespace HazardReach.Longitude

variable {K : Type} [Field K] [LinearOrder K] [IsStrictOrderedRing K] [FloorRing K]

theorem emod_turn_of_mem {x : K} {k : ℤ} (hlow : 360 * k ≤ x) (hhigh : x < 360 * (k + 1)) :
    Scalar.emod x 360 = x - 360 * k := by
  have hfloor : ⌊x / 360⌋ = k := by
    apply Int.floor_eq_iff.mpr
    rw [le_div_iff₀ (by norm_num), div_lt_iff₀ (by norm_num)]
    exact ⟨by linarith, by linarith⟩
  have habs : |(360 : K)| = 360 := abs_of_pos (by norm_num)
  change x - |360| * ⌊x / |360|⌋ = x - 360 * k
  rw [habs, hfloor]

theorem positive_of_nonneg {lon : K} (hlow : 0 ≤ lon) (hhigh : lon < 360) :
    positive lon = lon := by
  have h := emod_turn_of_mem (x := lon) (k := 0) (by simpa using hlow) (by simpa using hhigh)
  simpa [positive] using h

theorem positive_of_neg {lon : K} (hlow : -360 ≤ lon) (hhigh : lon < 0) :
    positive lon = lon + 360 := by
  have h := emod_turn_of_mem (x := lon) (k := -1) (by push_cast; linarith) (by push_cast; linarith)
  rw [positive]
  refine h.trans ?_
  push_cast
  ring

theorem positive_eq {lon : K} (hlow : -360 ≤ lon) (hhigh : lon < 360) :
    positive lon = if lon < 0 then lon + 360 else lon := by
  split
  · rename_i hneg
    exact positive_of_neg hlow hneg
  · rename_i hnonneg
    exact positive_of_nonneg (not_lt.mp hnonneg) hhigh

theorem exists_turn (lon : K) : ∃ k : ℤ, 360 * k ≤ lon ∧ lon < 360 * (k + 1) := by
  have hlow := Int.floor_le (lon / 360)
  have hhigh := Int.lt_floor_add_one (lon / 360)
  rw [le_div_iff₀ (by norm_num)] at hlow
  rw [div_lt_iff₀ (by norm_num)] at hhigh
  exact ⟨⌊lon / 360⌋, by linarith, by linarith⟩

theorem positive_spec (lon : K) :
    0 ≤ positive lon ∧ positive lon < 360 ∧ ∃ k : ℤ, positive lon = lon + 360 * k := by
  obtain ⟨k, hlow, hhigh⟩ := exists_turn lon
  have h : positive lon = lon - 360 * k := emod_turn_of_mem hlow hhigh
  refine ⟨by linarith, by linarith, -k, ?_⟩
  rw [h]
  push_cast
  ring

theorem positive_add_turns (lon : K) (turns : ℤ) :
    positive (lon + 360 * turns) = positive lon := by
  obtain ⟨k, hlow, hhigh⟩ := exists_turn lon
  have h : positive lon = lon - 360 * k := emod_turn_of_mem hlow hhigh
  have hturns : positive (lon + 360 * turns) = lon + 360 * turns - 360 * (k + turns : ℤ) :=
    emod_turn_of_mem (by push_cast; linarith) (by push_cast; linarith)
  rw [h, hturns]
  push_cast
  ring

/-- The longitudes name one meridian: in the frame from 0 to 360 they are one. -/
def SameMeridian (lon lon' : K) : Prop := positive lon' = positive lon

theorem sameMeridian_iff {lon lon' : K} :
    SameMeridian lon lon' ↔ ∃ turns : ℤ, lon' = lon + 360 * turns := by
  constructor
  · intro h
    obtain ⟨-, -, k, hk⟩ := positive_spec lon
    obtain ⟨-, -, k', hk'⟩ := positive_spec lon'
    refine ⟨k - k', ?_⟩
    unfold SameMeridian at h
    push_cast
    linarith
  · rintro ⟨turns, rfl⟩
    exact positive_add_turns lon turns

theorem positive_pos {lon : K} (hlow : -180 ≤ lon) (hhigh : lon ≤ 180) (hzero : lon ≠ 0) :
    0 < positive lon := by
  rw [positive_eq (by linarith) (by linarith)]
  split
  · linarith
  · rename_i hnonneg
    exact lt_of_le_of_ne (not_lt.mp hnonneg) hzero.symm

@[simp] theorem positive_zero : positive (0 : K) = 0 := positive_of_nonneg le_rfl (by norm_num)

theorem extent_congr (origin : K) {lon lon' : K} (h : SameMeridian lon lon') :
    extent origin lon' = extent origin lon := by
  obtain ⟨turns, rfl⟩ := sameMeridian_iff.mp h
  have hmoved : lon + 360 * turns - origin + 180 = lon - origin + 180 + 360 * turns := by ring
  have hturns : Scalar.emod (lon + 360 * turns - origin + 180) 360 =
      Scalar.emod (lon - origin + 180) 360 := by
    rw [hmoved]
    exact positive_add_turns _ turns
  unfold extent
  rw [hturns]

theorem extent_eq {origin lon : K} (hlow : -360 ≤ lon - origin) (hhigh : lon - origin ≤ 360) :
    extent origin lon =
      if lon - origin ≤ -180 then lon - origin + 360
      else if lon - origin ≤ 180 then lon - origin
      else lon - origin - 360 := by
  have key (k : ℤ) (h0 : 360 * k ≤ lon - origin + 180) (h1 : lon - origin + 180 < 360 * (k + 1)) :
      extent origin lon =
        if lon - origin - 360 * k = -180 then 180 else lon - origin - 360 * k := by
    have h := emod_turn_of_mem h0 h1
    have he : Scalar.emod (lon - origin + 180) 360 - 180 = lon - origin - 360 * k := by
      rw [h]
      ring
    unfold extent
    simp only [beq_iff_eq]
    rw [he]
  split_ifs with hwest heast
  · rcases hwest.lt_or_eq with hlt | heq
    · rw [key (-1) (by push_cast; linarith) (by push_cast; linarith),
        if_neg (by push_cast; linarith)]
      push_cast
      ring
    · rw [key 0 (by push_cast; linarith) (by push_cast; linarith), if_pos (by push_cast; linarith)]
      linarith
  · rcases heast.lt_or_eq with hlt | heq
    · rw [key 0 (by push_cast; linarith) (by push_cast; linarith), if_neg (by push_cast; linarith)]
      push_cast
      ring
    · rw [key 1 (by push_cast; linarith) (by push_cast; linarith), if_pos (by push_cast; linarith)]
      exact heq.symm
  · rw [key 1 (by push_cast; linarith) (by push_cast; linarith), if_neg (by push_cast; linarith)]
    push_cast
    ring

@[simp] theorem extent_self (lon : K) : extent lon lon = 0 := by
  rw [extent_eq (by simp) (by simp), sub_self, if_neg (by norm_num), if_pos (by norm_num)]

theorem extent_nonneg_iff (origin lon : K) (hlow : -360 ≤ lon - origin)
    (hhigh : lon - origin ≤ 360) :
    0 ≤ extent origin lon ↔
      lon - origin ≤ -180 ∨ (0 ≤ lon - origin ∧ lon - origin ≤ 180) ∨ lon - origin = 360 := by
  rw [extent_eq hlow hhigh]
  split_ifs with hwest heast
  · exact ⟨fun _ => .inl hwest, fun _ => by linarith⟩
  · simp only [hwest, heast, false_or, and_true]
    refine ⟨fun h => .inl h, ?_⟩
    intro h
    rcases h with h | h <;> linarith
  · simp only [hwest, heast, false_or, and_false]
    refine ⟨fun h => by linarith, ?_⟩
    intro h
    linarith

end HazardReach.Longitude
