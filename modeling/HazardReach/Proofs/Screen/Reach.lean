import HazardReach.Proofs.Frame
import HazardReach.Proofs.Screen.Pairs
import Mathlib.Data.Rat.Floor

/-! Which sites an indexed screen pairs with a source, by the box of the source. Off the cut of the
frame they are the sites on the arc of the box; on the cut a site that the box contains is missed
where an edge of the box is written on the far side. -/
namespace HazardReach.Screen

variable {K : Type} [Field K] [LinearOrder K] [FloorRing K] [IsStrictOrderedRing K]
  {own c : SiteCollection K} {cutoffs : CutoffTable K} {kind : IndexKind}
  {sites : Option (SiteCollection K)} {sources : List (Source K)} {source : Source K} {km : K}
  {b : Box K} {s : Site K}

/-- Off the cut, a member of the collection is paired with a source when it is between the
latitudes of its box and on its arc. -/
theorem pairs_iff_onArc (hown : own.Built) (hc : c.Built)
    (hlon : ∀ t ∈ own.toList, -180 ≤ t.lon ∧ t.lon ≤ 180)
    (huse : (build (some own) cutoffs kind).usesIndex = true)
    (hsites : sites.or (some own) = some c) (hmem : ∀ t ∈ c.toList, t ∈ own.toList)
    (hsource : source ∈ sources) (hkm : cutoffs.get source.regionType none = .ok km)
    (hbox : source.box km = .ok b) (hb : b.InRange) (hs : s ∈ c.toList)
    (hcut : ¬(build (some own) cutoffs kind).frame.OnCut s.lon) :
    (build (some own) cutoffs kind).Pairs sources sites source s ↔
      (b.south ≤ s.lat ∧ s.lat ≤ b.north) ∧ b.OnArc s.lon := by
  have hrange := hlon s (hmem s hs)
  rw [pairs_iff_finds hown hc huse hsites hmem hsource hkm hbox hb,
    Frame.finds_iff_onArc _ hb hrange.1 hrange.2 hcut]
  simp only [hs, true_and]

theorem pairs_across_date_line :
    ∃ (own : SiteCollection ℚ) (cutoffs : CutoffTable ℚ),
      own.toList = [⟨⟨0⟩, 179, 0, 0⟩, ⟨⟨1⟩, -179, 0, 0⟩, ⟨⟨2⟩, 10, 0, 0⟩] ∧
      (build (some own) cutoffs .scan).Pairs [.ofBox "box" "any" ⟨170, -10, -170, 10⟩] none
        (.ofBox "box" "any" ⟨170, -10, -170, 10⟩) ⟨⟨1⟩, -179, 0, 0⟩ ∧
      ¬(build (some own) cutoffs .scan).Pairs [.ofBox "box" "any" ⟨170, -10, -170, 10⟩] none
        (.ofBox "box" "any" ⟨170, -10, -170, 10⟩) ⟨⟨2⟩, 10, 0, 0⟩ := by
  obtain ⟨own, cutoffs, hown, hlist, huse, hget⟩ :=
    exists_usesIndex (α := ℚ) [⟨⟨0⟩, 179, 0, 0⟩, ⟨⟨1⟩, -179, 0, 0⟩, ⟨⟨2⟩, 10, 0, 0⟩] .scan 100
      (fun _ _ => rfl) (by simp) (by decide) (by decide) (by decide)
  have hlon : ∀ t ∈ own.toList, -180 ≤ t.lon ∧ t.lon ≤ 180 := by
    rw [hlist]
    norm_num
  have hb : (⟨170, -10, -170, 10⟩ : Box ℚ).InRange :=
    Box.inRange_iff.mpr (by norm_num)
  have hwidth : (⟨170, -10, -170, 10⟩ : Box ℚ).width = 20 := by
    rw [Box.width_of_wraps] <;> norm_num
  refine ⟨own, cutoffs, hlist, ?_, ?_⟩
  · apply (pairs_iff_onArc hown hown hlon huse rfl (fun _ ht => ht) (List.mem_singleton_self _)
      (hget _) rfl hb (by simp [hlist]) ?_).mpr
    · refine ⟨by norm_num, 1, ?_, ?_⟩
      · norm_num
      · rw [hwidth]
        norm_num
    · intro hcut
      have hcut := hcut.eq_or
      norm_num at hcut
  · intro h
    have hreach := (pairs_iff_onArc hown hown hlon huse rfl (fun _ ht => ht)
      (List.mem_singleton_self _) (hget _) rfl hb (by simp [hlist]) ?_).mp h
    · have hinside := (hb.contains_iff_onArc (by norm_num) (by norm_num)).mpr hreach
      have hinside := (Box.contains_iff.mp hinside).2
      norm_num at hinside
    · intro hcut
      have hcut := hcut.eq_or
      norm_num at hcut

/-- Of the sites that the box of a source contains, a screen over its own sites pairs all with the
source but those that its frame misses. -/
theorem pairs_iff_not_misses (hown : own.Built)
    (hlon : ∀ t ∈ own.toList, -180 ≤ t.lon ∧ t.lon ≤ 180)
    (huse : (build (some own) cutoffs kind).usesIndex = true)
    (hsource : source ∈ sources) (hkm : cutoffs.get source.regionType none = .ok km)
    (hbox : source.box km = .ok b) (hb : b.InRange) (hs : s ∈ own.toList)
    (hinside : b.contains s.lon s.lat = true) :
    (build (some own) cutoffs kind).Pairs sources none source s ↔
      ¬(build (some own) cutoffs kind).frame.Misses b s.lon := by
  have hrange := hlon s hs
  have hlat := (Box.contains_iff.mp hinside).1
  rw [pairs_iff_finds hown hown huse rfl (fun _ ht => ht) hsource hkm hbox hb,
    Frame.finds_iff_of_contains _ hb hrange.1 hrange.2 hinside]
  simp only [hs, hlat, true_and]

theorem pairs_on_date_line :
    ∃ (own : SiteCollection ℚ) (cutoffs : CutoffTable ℚ),
      own.toList = [⟨⟨0⟩, -180, 0, 0⟩] ∧
      (build (some own) cutoffs .tree).Pairs [.ofBox "box" "any" ⟨170, -10, -170, 10⟩] none
        (.ofBox "box" "any" ⟨170, -10, -170, 10⟩) ⟨⟨0⟩, -180, 0, 0⟩ := by
  obtain ⟨own, cutoffs, hown, hlist, huse, hget⟩ :=
    exists_usesIndex (α := ℚ) [⟨⟨0⟩, -180, 0, 0⟩] .tree 100 (fun _ _ => rfl) (by simp)
      (by decide) (by decide) (by decide)
  have hlon : ∀ t ∈ own.toList, -180 ≤ t.lon ∧ t.lon ≤ 180 := by
    rw [hlist]
    norm_num
  have hb : (⟨170, -10, -170, 10⟩ : Box ℚ).InRange :=
    Box.inRange_iff.mpr (by norm_num)
  refine ⟨own, cutoffs, hlist, ?_⟩
  apply (pairs_iff_not_misses hown hlon huse (List.mem_singleton_self _) (hget _) rfl hb
    (by simp [hlist]) ?_).mpr
  · intro hmiss
    cases hframe : (build (some own) cutoffs .tree).frame with
    | signed =>
      rw [hframe] at hmiss
      have heast := hmiss.2.1
      norm_num at heast
    | positive =>
      rw [hframe] at hmiss
      have hzero := hmiss.1
      norm_num at hzero
  · rw [Box.contains_iff]
    norm_num

theorem exists_not_pairs (members : List (Site K)) (hsea : ∀ t ∈ members, (t.depth == 0) = true)
    (hnodup : (members.map (·.id)).Nodup) (hlow : -180 ≤ s.lon) (hhigh : s.lon ≤ 180)
    (hb : b.InRange) (hinside : b.contains s.lon s.lat = true)
    (hmiss : (if Longitude.crossDateLine (members.map (·.lon)) then Frame.positive
      else .signed).Misses b s.lon) :
    ∃ (own : SiteCollection K) (cutoffs : CutoffTable K), own.toList = members ∧
      (build (some own) cutoffs .scan).usesIndex = true ∧
      ¬(build (some own) cutoffs .scan).Pairs [.ofBox "box" "any" b] none
        (.ofBox "box" "any" b) s := by
  obtain ⟨own, cutoffs, hown, hlist, huse, hget⟩ :=
    exists_usesIndex members .scan 100 (fun _ _ => rfl) hsea hnodup (by decide)
      (Scalar.isExtent_exact_iff.mpr (by norm_num))
  refine ⟨own, cutoffs, hlist, huse, ?_⟩
  rw [pairs_iff_finds hown hown huse rfl (fun _ ht => ht) (List.mem_singleton_self _) (hget _)
    rfl hb, Frame.finds_iff_of_contains _ hb hlow hhigh hinside, frame_build huse]
  intro h
  apply h.2.2
  unfold SiteCollection.frame SiteCollection.lons
  rw [hlist]
  exact hmiss

/-- Boxes that end on the cut of the frame contain a site there that is not paired with them: at
the zero meridian where the sites lie on both sides of the date line, and at -180 elsewhere. -/
theorem not_pairs_on_cut :
    (∃ (own : SiteCollection ℚ) (cutoffs : CutoffTable ℚ),
      own.toList = [⟨⟨0⟩, 179.5, 0, 0⟩, ⟨⟨1⟩, -179.5, 0, 0⟩, ⟨⟨2⟩, 0, 0, 0⟩] ∧
      (build (some own) cutoffs .scan).usesIndex = true ∧
      (⟨-10, -10, 0, 10⟩ : Box ℚ).contains 0 0 = true ∧
      ¬(build (some own) cutoffs .scan).Pairs [.ofBox "box" "any" ⟨-10, -10, 0, 10⟩] none
        (.ofBox "box" "any" ⟨-10, -10, 0, 10⟩) ⟨⟨2⟩, 0, 0, 0⟩) ∧
    ∃ (own : SiteCollection ℚ) (cutoffs : CutoffTable ℚ),
      own.toList = [⟨⟨0⟩, -180, 0, 0⟩] ∧
      (build (some own) cutoffs .scan).usesIndex = true ∧
      (⟨170, -10, -180, 10⟩ : Box ℚ).contains (-180) 0 = true ∧
      ¬(build (some own) cutoffs .scan).Pairs [.ofBox "box" "any" ⟨170, -10, -180, 10⟩] none
        (.ofBox "box" "any" ⟨170, -10, -180, 10⟩) ⟨⟨0⟩, -180, 0, 0⟩ := by
  apply And.intro
  · have hb : (⟨-10, -10, 0, 10⟩ : Box ℚ).InRange :=
      Box.inRange_iff.mpr (by norm_num)
    have hinside : (⟨-10, -10, 0, 10⟩ : Box ℚ).contains 0 0 = true := by
      rw [Box.contains_iff]
      norm_num
    have hcross : Longitude.crossDateLine [179.5, -179.5, (0 : ℚ)] = true := by
      unfold Longitude.crossDateLine
      norm_num [Scalar.bounds?]
    obtain ⟨own, cutoffs, hlist, huse, hnot⟩ :=
      exists_not_pairs [⟨⟨0⟩, 179.5, 0, 0⟩, ⟨⟨1⟩, -179.5, 0, 0⟩, ⟨⟨2⟩, 0, 0, 0⟩]
        (s := ⟨⟨2⟩, 0, 0, 0⟩) (by simp) (by decide) (by norm_num) (by norm_num) hb hinside (by
          simp only [List.map_cons, List.map_nil, hcross, if_true]
          exact ⟨rfl, rfl, by norm_num⟩)
    exact ⟨own, cutoffs, hlist, huse, hinside, hnot⟩
  · have hb : (⟨170, -10, -180, 10⟩ : Box ℚ).InRange :=
      Box.inRange_iff.mpr (by norm_num)
    have hinside : (⟨170, -10, -180, 10⟩ : Box ℚ).contains (-180) 0 = true := by
      rw [Box.contains_iff]
      norm_num
    have hcross : Longitude.crossDateLine [(-180 : ℚ)] = false := by
      unfold Longitude.crossDateLine
      norm_num [Scalar.bounds?]
    obtain ⟨own, cutoffs, hlist, huse, hnot⟩ :=
      exists_not_pairs [⟨⟨0⟩, -180, 0, 0⟩] (s := ⟨⟨0⟩, -180, 0, 0⟩) (by simp)
        (by decide) (by norm_num) (by norm_num) hb hinside (by
          simp only [List.map_cons, List.map_nil, hcross, Bool.false_eq_true, if_false]
          exact ⟨rfl, rfl, by norm_num⟩)
    exact ⟨own, cutoffs, hlist, huse, hinside, hnot⟩

end HazardReach.Screen
