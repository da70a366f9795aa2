import HazardReach.Proofs.Box.Enclosing
import Mathlib.Data.Rat.Floor

/-! The box around points is the smallest one. Longitudes that meet one arc of less than half a turn
lie on it in the order in which they are written, or on both sides of the date line and far from
zero. So the widest gap between them is the one that the box leaves open, sets that fit are never
refused, and nothing depends on the order of the points. -/
namespace HazardReach

variable {K : Type} [Field K] [LinearOrder K] [FloorRing K]

namespace Longitude

variable [IsStrictOrderedRing K] {west width x y : K} {k l : ℤ}

theorem turn_eq (hnarrow : width < 180) (hle : x ≤ y) (hhalf : y - x ≤ 180)
    (hx : west ≤ x + 360 * k ∧ x + 360 * k ≤ west + width)
    (hy : west ≤ y + 360 * l ∧ y + 360 * l ≤ west + width) : l = k := by
  have hturn : (-1 : K) < l - k ∧ (l - k : K) < 1 := ⟨by linarith, by linarith⟩
  norm_cast at hturn
  omega

theorem turn_eq_sub_one (hnarrow : width < 180) (hfar : 180 < y - x) (hturn : y - x ≤ 360)
    (hx : west ≤ x + 360 * k ∧ x + 360 * k ≤ west + width)
    (hy : west ≤ y + 360 * l ∧ y + 360 * l ≤ west + width) : l = k - 1 := by
  have hbetween : (-2 : K) < l - k ∧ (l - k : K) < 0 := ⟨by linarith, by linarith⟩
  norm_cast at hbetween
  omega

/-- Where longitudes more than half a turn apart meet an arc of less than that, it crosses the date
line: nothing on it lies at zero, and both sides are more than half a turn apart. -/
theorem sides_of_onArc {lons : List K} {low high : K} (hnarrow : width < 180)
    (hlon : ∀ lon ∈ lons, -180 ≤ lon ∧ lon ≤ 180) (hlow : low ∈ lons) (hhigh : high ∈ lons)
    (hbetween : ∀ lon ∈ lons, low ≤ lon ∧ lon ≤ high) (hfar : 180 < high - low)
    (harc : ∀ lon ∈ lons, OnArc west width lon) :
    low < 0 ∧ 0 < high ∧ 0 ∉ lons ∧ ∀ x ∈ lons, ∀ y ∈ lons, 0 < x → y < 0 → 180 < x - y := by
  have hl := hlon low hlow
  have hh := hlon high hhigh
  obtain ⟨k, hk⟩ := harc low hlow
  obtain ⟨l, hl'⟩ := harc high hhigh
  obtain rfl := turn_eq_sub_one hnarrow hfar (by linarith) hk hl'
  have hwest : ∀ lon ∈ lons, lon ≤ 0 → ∀ m : ℤ,
      west ≤ lon + 360 * m ∧ lon + 360 * m ≤ west + width → m = k := by
    intro lon hmem hnonpos m hm
    exact turn_eq hnarrow (hbetween lon hmem).1 (by linarith) hk hm
  have heast : ∀ lon ∈ lons, 0 ≤ lon → ∀ m : ℤ,
      west ≤ lon + 360 * m ∧ lon + 360 * m ≤ west + width → m = k - 1 := by
    intro lon hmem hnonneg m hm
    exact (turn_eq hnarrow (hbetween lon hmem).2 (by linarith) hm hl').symm
  push_cast at hl'
  refine ⟨by linarith, by linarith, ?_, ?_⟩
  · intro hzero
    obtain ⟨m, hm⟩ := harc 0 hzero
    have hsame := (hwest 0 hzero le_rfl m hm).symm.trans (heast 0 hzero le_rfl m hm)
    omega
  · intro x hx y hy hpos hneg
    obtain ⟨m, hm⟩ := harc x hx
    obtain ⟨n, hn⟩ := harc y hy
    rw [heast x hx hpos.le m hm] at hm
    rw [hwest y hy hneg.le n hn] at hn
    push_cast at hm
    linarith

end Longitude

namespace Box

/-- The smallest box around points: its edges are among their coordinates, and no arc of lesser
width meets the meridians of all of them. -/
structure SmallestAround (b : Box K) (points : List (Point K)) : Prop where
  contains : ∀ p ∈ points, b.contains p.lon p.lat = true
  west_mem : ∃ p ∈ points, p.lon = b.west
  east_mem : ∃ p ∈ points, p.lon = b.east
  south_mem : ∃ p ∈ points, p.lat = b.south
  north_mem : ∃ p ∈ points, p.lat = b.north
  lat : ∀ p ∈ points, b.south ≤ p.lat ∧ p.lat ≤ b.north
  width_le : b.width ≤ 180
  width_le_arc : ∀ west width, (∀ p ∈ points, Longitude.OnArc west width p.lon) → b.width ≤ width

theorem enclosing_congr {lons lons' lats lats' : List K} (hlons : lons.Perm lons')
    (hlats : lats.Perm lats') : enclosing lons lats = enclosing lons' lats' := by
  have hbounds := Scalar.bounds?_congr fun x => hlons.mem_iff (a := x)
  have hbounds' := Scalar.bounds?_congr fun x => hlats.mem_iff (a := x)
  have hany (p : K → Bool) : lons.any p = lons'.any p := hlons.any_eq
  have hspans (west east : K) : spans west east lons = spans west east lons' := hlons.all_eq
  have hedges : edgesAcross? lons = edgesAcross? lons' := by
    unfold edgesAcross?
    have hfilter (p : K → Bool) :
        Scalar.bounds? (lons.filter p) = Scalar.bounds? (lons'.filter p) :=
      Scalar.bounds?_congr fun x => (hlons.filter p).mem_iff
    simp only [hfilter, hspans]
  unfold enclosing
  rw [hlons.length_eq, hlats.length_eq, hbounds, hbounds', hedges]
  simp only [hany]

variable [IsStrictOrderedRing K]

namespace Encloses

variable {b : Box K} {lons lats : List K} (h : b.Encloses lons lats)

include h

theorem width_le_half (hdate : ¬(-180 ∈ lons ∧ 180 ∈ lons)) : b.width ≤ 180 := by
  rcases h.width with hwidth | hwidth
  · exact hwidth
  · obtain ⟨hwest, heast⟩ := h.inRange.edges_of_width_eq hwidth
    exact absurd ⟨hwest ▸ h.west_mem, heast ▸ h.east_mem⟩ hdate

theorem mem_range {lon : K} (hlon : lon ∈ lons) (hrange : ∀ lon ∈ lons, -180 ≤ lon ∧ lon ≤ 180)
    (hdate : ¬(-180 ∈ lons ∧ 180 ∈ lons)) :
    if b.east < b.west then b.west ≤ lon ∨ lon ≤ b.east else b.west ≤ lon ∧ lon ≤ b.east := by
  have hl := hrange lon hlon
  have hin := h.inRange
  have hw := hin.le_west
  have he := hin.east_le
  rcases hl.1.lt_or_eq with hlow | rfl
  · rcases hl.2.lt_or_eq with hhigh | rfl
    · exact hin.between_of_onArc hlow hhigh (h.onArc lon hlon)
    · -- The other spelling of the date line is not an edge, so that only this one can be met.
      have hwest : -180 < b.west := lt_of_le_of_ne hw fun heq => hdate ⟨heq ▸ h.west_mem, hlon⟩
      split
      · exact .inl hin.west_le
      · rename_i hwraps
        refine ⟨hin.west_le, ?_⟩
        by_contra hlt
        exact hwraps ((hin.onArc_dateLine_iff (.inr rfl) hwest (not_le.mp hlt)).mp
          (h.onArc 180 hlon))
  · have heast : b.east < 180 := lt_of_le_of_ne he fun heq => hdate ⟨hlon, heq ▸ h.east_mem⟩
    split
    · exact .inr hin.le_east
    · rename_i hwraps
      refine ⟨?_, hin.le_east⟩
      by_contra hlt
      exact hwraps ((hin.onArc_dateLine_iff (.inl rfl) (not_le.mp hlt) heast).mp
        (h.onArc (-180) hlon))

theorem width_le_of_onArc (hhalf : b.width ≤ 180) {west width : K}
    (harc : ∀ lon ∈ lons, Longitude.OnArc west width lon) : b.width ≤ width := by
  obtain ⟨k, hk⟩ := harc b.west h.west_mem
  obtain ⟨l, hl⟩ := harc b.east h.east_mem
  obtain ⟨j, hj⟩ := b.width_turns
  by_contra hlt
  have hturn : (-1 : K) < j - l + k ∧ (j - l + k : K) < 1 := ⟨by linarith, by linarith⟩
  norm_cast at hturn
  have hzero : j = l - k := by omega
  rw [hzero] at hj
  push_cast at hj
  linarith

end Encloses

theorem edgesAcross?_isSome {lons : List K} {low high west width : K} (hnarrow : width < 180)
    (hlon : ∀ lon ∈ lons, -180 ≤ lon ∧ lon ≤ 180) (hlow : low ∈ lons) (hhigh : high ∈ lons)
    (hbetween : ∀ lon ∈ lons, low ≤ lon ∧ lon ≤ high) (hfar : 180 < high - low)
    (harc : ∀ lon ∈ lons, Longitude.OnArc west width lon) : (edgesAcross? lons).isSome = true := by
  obtain ⟨hneg, hpos, hzero, hsides⟩ :=
    Longitude.sides_of_onArc hnarrow hlon hlow hhigh hbetween hfar harc
  have heasts : high ∈ lons.filter fun lon => decide (0 < lon) := by simp [hhigh, hpos]
  have hwests : low ∈ lons.filter fun lon => decide (lon < 0) := by simp [hlow, hneg]
  obtain ⟨first, last, hfirst⟩ := Scalar.exists_bounds? (List.ne_nil_of_mem heasts)
  obtain ⟨first', last', hlast⟩ := Scalar.exists_bounds? (List.ne_nil_of_mem hwests)
  have hspans : spans first last' lons = true := by
    obtain ⟨hmem, -, hall⟩ := Scalar.bounds?_eq_some hfirst
    obtain ⟨-, hmem', hall'⟩ := Scalar.bounds?_eq_some hlast
    simp only [List.mem_filter, decide_eq_true_eq, and_imp] at hmem hall hmem' hall'
    rw [spans_iff (hlon _ hmem.1) (hlon _ hmem'.1) hlon]
    intro lon hlon'
    have hrange := hlon lon hlon'
    rcases lt_trichotomy lon 0 with hlt | rfl | hgt
    · have hside := hsides first hmem.1 lon hlon' hmem.2 hlt
      have hle := (hall' lon hlon' hlt).2
      exact ⟨.inl (by linarith), .inr (.inl ⟨by linarith, by linarith⟩)⟩
    · contradiction
    · have hside := hsides lon hlon' last' hmem'.1 hgt hmem'.2
      have hle := (hall lon hlon' hgt).1
      exact ⟨.inr (.inl ⟨by linarith, by linarith⟩), .inl (by linarith)⟩
  simp [edgesAcross?, hfirst, hlast, hspans]

theorem exists_enclosing_of_onArc {lons lats : List K} {west width : K}
    (hlength : lons.length = lats.length) (hne : lons ≠ [])
    (hlon : ∀ lon ∈ lons, -180 ≤ lon ∧ lon ≤ 180) (hnarrow : width < 180)
    (harc : ∀ lon ∈ lons, Longitude.OnArc west width lon) : ∃ b, enclosing lons lats = .ok b := by
  have hne' : lats ≠ [] := by
    rw [← List.length_pos_iff, ← hlength]
    exact List.length_pos_iff.mpr hne
  obtain ⟨low, high, hlons⟩ := Scalar.exists_bounds? hne
  obtain ⟨south, north, hlats⟩ := Scalar.exists_bounds? hne'
  obtain ⟨hlow, hhigh, hbetween⟩ := Scalar.bounds?_eq_some hlons
  have hl := hlon low hlow
  have hh := hlon high hhigh
  have hrange : (lons.any fun lon => !(decide (-180 ≤ lon) && decide (lon ≤ 180))) = false := by
    simpa using hlon
  unfold enclosing
  simp only [hlength, hlons, hlats, hrange, ne_eq, not_true_eq_false, if_false, Bool.false_eq_true]
  by_cases hneg : Longitude.extent low high < 0
  · have hfar : 180 < high - low := by
      by_contra hle
      apply hneg.not_ge
      rw [Longitude.extent_nonneg_iff low high (by linarith) (by linarith)]
      exact .inr (.inl ⟨by linarith [(hbetween high hhigh).1], not_lt.mp hle⟩)
    obtain ⟨edges, hedges⟩ := Option.isSome_iff_exists.mp
      (edgesAcross?_isSome hnarrow hlon hlow hhigh hbetween hfar harc)
    rw [if_pos hneg, hedges]
    exact ⟨_, rfl⟩
  · rw [if_neg hneg]
    exact ⟨_, rfl⟩

/-- Points whose date line is written one way only have the smallest box around them, if any; they
have one when they fit in less than half a turn; and their order does not matter. -/
theorem enclosing_smallest {points : List (Point K)} (hne : points ≠ [])
    (hlon : ∀ p ∈ points, -180 ≤ p.lon ∧ p.lon ≤ 180)
    (hdate : ¬((∃ p ∈ points, p.lon = -180) ∧ ∃ p ∈ points, p.lon = 180)) :
    (∀ b, enclosing (points.map (·.lon)) (points.map (·.lat)) = .ok b → b.SmallestAround points) ∧
    (∀ west width, width < 180 → (∀ p ∈ points, Longitude.OnArc west width p.lon) →
      ∃ b, enclosing (points.map (·.lon)) (points.map (·.lat)) = .ok b) ∧
    ∀ points', points.Perm points' →
      enclosing (points'.map (·.lon)) (points'.map (·.lat)) =
        enclosing (points.map (·.lon)) (points.map (·.lat)) := by
  have hlons : ∀ lon ∈ points.map (·.lon), -180 ≤ lon ∧ lon ≤ 180 := by
    simpa using hlon
  refine ⟨?_, ?_, ?_⟩
  · intro b hb
    have h := encloses_of_enclosing hb
    have hhalf : b.width ≤ 180 := h.width_le_half (by simpa using hdate)
    have hwest := h.west_mem
    have heast := h.east_mem
    have hsouth := h.south_mem
    have hnorth := h.north_mem
    have hlat := h.lat
    simp only [List.mem_map] at hwest heast hsouth hnorth
    simp only [List.mem_map, forall_exists_index, and_imp, forall_apply_eq_imp_iff₂] at hlat
    refine ⟨?_, hwest, heast, hsouth, hnorth, hlat, hhalf, ?_⟩
    · intro p hp
      have hdate : ¬(-180 ∈ points.map (·.lon) ∧ 180 ∈ points.map (·.lon)) := by
        simpa using hdate
      exact contains_iff.mpr ⟨hlat p hp, h.mem_range (List.mem_map_of_mem hp) hlons hdate⟩
    · intro west width harc
      exact h.width_le_of_onArc hhalf (by simpa using harc)
  · intro west width hnarrow harc
    exact exists_enclosing_of_onArc (by simp) (by simpa using hne) hlons hnarrow
      (by simpa using harc)
  · intro points' hperm
    exact enclosing_congr (hperm.symm.map _) (hperm.symm.map _)

theorem enclosing_across_date_line :
    ∃ b : Box ℚ, enclosing [170, 180, -175] [1, -2, 3] = .ok b ∧
      b.SmallestAround [⟨170, 1, 0⟩, ⟨180, -2, 0⟩, ⟨-175, 3, 0⟩] ∧ b.width ≤ 15 ∧
      enclosing [-175, 180, 170] [3, -2, 1] = .ok b := by
  have hlon : ∀ p ∈ [(⟨170, 1, 0⟩ : Point ℚ), ⟨180, -2, 0⟩, ⟨-175, 3, 0⟩],
      -180 ≤ p.lon ∧ p.lon ≤ 180 := by
    norm_num
  obtain ⟨hsmallest, haccepted, horder⟩ := enclosing_smallest (by simp) hlon (by norm_num)
  have harc : ∀ p ∈ [(⟨170, 1, 0⟩ : Point ℚ), ⟨180, -2, 0⟩, ⟨-175, 3, 0⟩],
      Longitude.OnArc 170 15 p.lon := by
    simp only [List.forall_mem_cons, List.not_mem_nil, false_imp_iff, implies_true, and_true]
    exact ⟨⟨0, by norm_num⟩, ⟨0, by norm_num⟩, ⟨1, by norm_num⟩⟩
  obtain ⟨b, hb⟩ := haccepted 170 15 (by norm_num) harc
  have hperm : [(⟨170, 1, 0⟩ : Point ℚ), ⟨180, -2, 0⟩, ⟨-175, 3, 0⟩].Perm
      [⟨-175, 3, 0⟩, ⟨180, -2, 0⟩, ⟨170, 1, 0⟩] :=
    (List.reverse_perm _).symm
  have hsmall := hsmallest b hb
  exact ⟨b, hb, hsmall, hsmall.width_le_arc _ _ harc, (horder _ hperm).trans hb⟩

end Box

end HazardReach
