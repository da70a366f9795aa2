import HazardReach.Proofs.Box.Range
import HazardReach.Proofs.Longitude

/-! A box as an arc of meridians: it runs eastwards from its west edge for its width, and a
longitude is on it when some number of whole turns puts it there. Away from the date line this is
the containment test. -/
namespace HazardReach

variable {K : Type} [Field K] [LinearOrder K] [FloorRing K]

/-- The meridian of `lon` meets the arc that runs eastwards from `west`. -/
def Longitude.OnArc (west width lon : K) : Prop :=
  ∃ k : ℤ, west ≤ lon + 360 * k ∧ lon + 360 * k ≤ west + width

namespace Box

/-- The meridian of `lon` meets the box. -/
def OnArc (b : Box K) (lon : K) : Prop :=
  ∃ k : ℤ, b.west ≤ lon + 360 * k ∧ lon + 360 * k ≤ b.west + b.width

theorem width_of_wraps {b : Box K} (h : b.east < b.west) : b.width = b.east + 360 - b.west := by
  simp [width, wraps, h]

theorem width_of_not_wraps {b : Box K} (h : ¬b.east < b.west) : b.width = b.east - b.west := by
  simp [width, wraps, h]

theorem width_turns (b : Box K) : ∃ k : ℤ, b.width = b.east - b.west + 360 * k := by
  by_cases h : b.east < b.west
  · exact ⟨1, by rw [width_of_wraps h]; push_cast; ring⟩
  · exact ⟨0, by rw [width_of_not_wraps h]; push_cast; ring⟩

theorem contains_iff {b : Box K} {lon lat : K} :
    b.contains lon lat = true ↔ (b.south ≤ lat ∧ lat ≤ b.north) ∧
      if b.east < b.west then b.west ≤ lon ∨ lon ≤ b.east else b.west ≤ lon ∧ lon ≤ b.east :=
  contains_iff_spans

@[simp] theorem width_ofLocation (lon lat : K) : (ofLocation lon lat).width = 0 := by
  rw [width_of_not_wraps (lt_irrefl lon)]
  exact sub_self lon

theorem onArc_ofLocation_iff {lon lat x : K} :
    (ofLocation lon lat).OnArc x ↔ ∃ k : ℤ, x + 360 * k = lon := by
  unfold OnArc
  rw [width_ofLocation, add_zero]
  apply exists_congr
  intro k
  exact le_antisymm_iff.symm.trans eq_comm

theorem onArc_of_full [IsStrictOrderedRing K] {b : Box K} {x : K} (hwest : b.west = -180)
    (heast : b.east = 180) : b.OnArc x := by
  have hwidth : b.width = 360 := by
    rw [width_of_not_wraps (by linarith), hwest, heast]
    norm_num
  obtain ⟨hlow, hhigh, m, hm⟩ := Longitude.positive_spec (x + 180)
  exact ⟨m, by linarith, by linarith⟩

namespace InRange

variable [IsStrictOrderedRing K] {b : Box K} (hb : b.InRange)

include hb

theorem width_nonneg : 0 ≤ b.width := by
  have hwest := hb.west_le
  have heast := hb.le_east
  by_cases h : b.east < b.west
  · rw [width_of_wraps h]
    linarith
  · rw [width_of_not_wraps h]
    linarith

theorem width_le : b.width ≤ 360 := by
  have hwest := hb.le_west
  have heast := hb.east_le
  by_cases h : b.east < b.west
  · rw [width_of_wraps h]
    linarith
  · rw [width_of_not_wraps h]
    linarith

theorem edges_of_width_eq (h : b.width = 360) : b.west = -180 ∧ b.east = 180 := by
  have hwest := hb.le_west
  have heast := hb.east_le
  by_cases hwraps : b.east < b.west
  · rw [width_of_wraps hwraps] at h
    linarith
  · rw [width_of_not_wraps hwraps] at h
    exact ⟨by linarith, by linarith⟩

theorem onArc_of_contains {lon lat : K} (hlow : -180 ≤ lon) (hhigh : lon ≤ 180)
    (h : b.contains lon lat = true) : b.OnArc lon := by
  have hwest := hb.west_le
  have heast := hb.le_east
  have h := (contains_iff.mp h).2
  by_cases hwraps : b.east < b.west
  · rw [if_pos hwraps] at h
    rw [OnArc, width_of_wraps hwraps]
    rcases h with h | h
    · exact ⟨0, by push_cast; linarith, by push_cast; linarith⟩
    · exact ⟨1, by push_cast; linarith, by push_cast; linarith⟩
  · rw [if_neg hwraps] at h
    rw [OnArc, width_of_not_wraps hwraps]
    exact ⟨0, by push_cast; linarith, by push_cast; linarith⟩

theorem between_of_onArc {lon : K} (hlow : -180 < lon) (hhigh : lon < 180) (h : b.OnArc lon) :
    if b.east < b.west then b.west ≤ lon ∨ lon ≤ b.east else b.west ≤ lon ∧ lon ≤ b.east := by
  have hwest := hb.le_west
  have heast := hb.east_le
  obtain ⟨k, hk, hk'⟩ := h
  split
  · rename_i hwraps
    rw [width_of_wraps hwraps] at hk'
    have hturn : (-1 : K) < k ∧ (k : K) < 2 := ⟨by linarith, by linarith⟩
    norm_cast at hturn
    have hk01 : k = 0 ∨ k = 1 := by omega
    cases hk01 with
    | inl hzero =>
      rw [hzero] at hk
      exact .inl (by simpa using hk)
    | inr hone =>
      rw [hone] at hk'
      push_cast at hk'
      exact .inr (by linarith)
  · rename_i hwraps
    rw [width_of_not_wraps hwraps] at hk'
    have hturn : (-1 : K) < k ∧ (k : K) < 1 := ⟨by linarith, by linarith⟩
    norm_cast at hturn
    have hzero : k = 0 := by omega
    rw [hzero] at hk hk'
    push_cast at hk hk'
    exact ⟨by linarith, by linarith⟩

theorem contains_iff_onArc {lon lat : K} (hlow : -180 < lon) (hhigh : lon < 180) :
    b.contains lon lat = true ↔ (b.south ≤ lat ∧ lat ≤ b.north) ∧ b.OnArc lon := by
  apply Iff.intro
  · intro h
    exact ⟨(contains_iff.mp h).1, hb.onArc_of_contains hlow.le hhigh.le h⟩
  · intro h
    exact contains_iff.mpr ⟨h.1, hb.between_of_onArc hlow hhigh h.2⟩

theorem onArc_zero_iff (hlt : b.width < 360) (hwest : b.west ≠ 0) (heast : b.east ≠ 0) :
    b.OnArc 0 ↔ Longitude.positive b.east < Longitude.positive b.west := by
  have hw := hb.le_west
  have hw' := hb.west_le
  have he := hb.le_east
  have he' := hb.east_le
  have harc : b.OnArc 0 ↔
      if b.east < b.west then b.west ≤ 0 ∨ 0 ≤ b.east else b.west ≤ 0 ∧ 0 ≤ b.east := by
    have hzero : b.contains 0 b.south = true ↔
        (b.south ≤ b.south ∧ b.south ≤ b.north) ∧ b.OnArc 0 :=
      hb.contains_iff_onArc (by norm_num) (by norm_num)
    rw [contains_iff] at hzero
    simpa only [le_refl, hb.south_le_north, true_and] using hzero.symm
  rw [harc, Longitude.positive_eq (by linarith) (by linarith),
    Longitude.positive_eq (by linarith) (by linarith)]
  rcases lt_or_gt_of_ne hwest with hwest | hwest <;> rcases lt_or_gt_of_ne heast with heast | heast
  · by_cases hwraps : b.east < b.west <;>
      simp [hwest, heast, hwest.le, heast.not_ge, hwraps]
  · have hwraps : ¬b.east < b.west := by linarith
    rw [width_of_not_wraps hwraps] at hlt
    rw [if_neg hwraps, if_neg heast.not_gt, if_pos hwest]
    exact iff_of_true ⟨hwest.le, heast.le⟩ (by linarith)
  · have hwraps : b.east < b.west := by linarith
    rw [if_pos hwraps, if_pos heast, if_neg hwest.not_gt]
    exact iff_of_false (fun h => h.elim hwest.not_ge heast.not_ge) (by linarith)
  · by_cases hwraps : b.east < b.west <;>
      simp [hwest.not_gt, heast.not_gt, hwest.not_ge, heast.le, hwraps]

theorem onArc_dateLine_iff {x : K} (hx : x = -180 ∨ x = 180) (hwest : -180 < b.west)
    (heast : b.east < 180) : b.OnArc x ↔ b.east < b.west := by
  apply Iff.intro
  · intro h
    obtain ⟨k, hk, hk'⟩ := h
    by_contra hwraps
    rw [width_of_not_wraps hwraps] at hk'
    cases hx with
    | inl hx =>
      rw [hx] at hk hk'
      have hturn : (0 : K) < k ∧ (k : K) < 1 := ⟨by linarith, by linarith⟩
      norm_cast at hturn
      omega
    | inr hx =>
      rw [hx] at hk hk'
      have hturn : (-1 : K) < k ∧ (k : K) < 0 := ⟨by linarith, by linarith⟩
      norm_cast at hturn
      omega
  · intro hwraps
    have hw := hb.west_le
    have he := hb.le_east
    rw [OnArc, width_of_wraps hwraps]
    cases hx with
    | inl hx => exact ⟨1, by push_cast; linarith, by push_cast; linarith⟩
    | inr hx => exact ⟨0, by push_cast; linarith, by push_cast; linarith⟩

end InRange

end Box

end HazardReach
