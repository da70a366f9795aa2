import HazardReach.Proofs.Box.Enlarged
import HazardReach.Proofs.Site.Collection
import HazardReach.Source.MultiPointSource

/-! Sources that start at points. Both kinds have the box around their locations, grown by the
cutoff and the reach of their ruptures, and both search for the sites that some location reaches. -/
namespace HazardReach

theorem Mesh.points_ofPoints {α : Type} (points : List (Point α)) :
    (Mesh.ofPoints points).points = points := by
  unfold Mesh.ofPoints Mesh.points
  rw [List.zip_map', List.zip_map', List.map_map]
  exact List.map_id points

section Search

variable {α : Type} [Scalar α] [Trig α]

/-- The source starts at the locations, and its ruptures reach `radius` from them. -/
inductive Source.OfPoints : Source α → (locations : List (Point α)) → (radius : α) → Prop where
  | point (s : PointSource α) : OfPoints s.toSource [s.location] s.maxRuptureRadius
  | multi (s : MultiPointSource α) : OfPoints s.toSource s.locations s.maxRuptureRadius

def Site.isReached (locations : List (Point α)) (limit : α) (s : Site α) : Bool :=
  locations.any fun p => decide (p.epicentral s.location ≤ limit)

theorem Site.isReached_iff {locations : List (Point α)} {limit : α} {s : Site α} :
    s.isReached locations limit = true ↔ ∃ p ∈ locations, p.epicentral s.location ≤ limit := by
  unfold isReached
  rw [List.any_eq_true]
  simp only [decide_eq_true_eq]

theorem epicentrals_mesh (p : Point α) (c : SiteCollection α) :
    p.epicentrals c.mesh = c.toList.map fun s => p.epicentral s.location := by
  unfold Point.epicentrals SiteCollection.mesh
  rw [Mesh.points_ofPoints, List.map_map]
  rfl

theorem nearMask_eq (limit : α) (locations : List (Point α)) (c : SiteCollection α)
    (marked : Site α → Bool) :
    MultiPointSource.nearMask limit locations c.mesh (c.toList.map marked) =
      c.toList.map fun s => marked s || s.isReached locations limit := by
  unfold MultiPointSource.nearMask
  induction locations generalizing marked with
  | nil => simp [Site.isReached]
  | cons p rest ih =>
    rw [List.foldl_cons, epicentrals_mesh, List.zipWith_map, List.zipWith_self, ih]
    apply List.map_congr_left
    intro s hs
    rw [Bool.or_assoc]
    rfl

private theorem pointMask_eq (p : Point α) (limit : α) (c : SiteCollection α) :
    (p.epicentrals c.mesh).map (fun d => decide (d ≤ limit)) =
      c.toList.map (·.isReached [p] limit) := by
  rw [epicentrals_mesh, List.map_map]
  apply List.map_congr_left
  intro s hs
  simp [Site.isReached]

private theorem nearMask_unmarked (limit : α) (locations : List (Point α)) {c : SiteCollection α}
    (hc : c.WellFormed) :
    MultiPointSource.nearMask limit locations c.mesh (List.replicate c.size false) =
      c.toList.map (·.isReached locations limit) := by
  have hunmarked : List.replicate c.size false = c.toList.map fun _ => false := by
    rw [← hc.length_toList, List.map_const']
  rw [hunmarked, nearMask_eq]
  simp only [Bool.false_or]

omit [Trig α] in
theorem Source.checkReach_iff {km : α} : checkReach km = .ok () ↔ Scalar.isExtent km = true := by
  unfold checkReach
  split <;> simp_all

omit [Trig α] in
theorem Source.checkReach_cases (km : α) :
    checkReach km = .ok () ∨ ∃ fault, checkReach km = .error (.geometry fault) := by
  unfold checkReach
  cases Scalar.isExtent km with
  | true => exact .inl rfl
  | false => exact .inr ⟨_, rfl⟩

omit [Scalar α] [Trig α] in
theorem MultiPointSource.checkLocations_cases (s : MultiPointSource α) :
    s.checkLocations = .ok () ∨ ∃ fault, s.checkLocations = .error (.geometry fault) := by
  unfold checkLocations
  cases s.locations.isEmpty with
  | false => exact .inl rfl
  | true => exact .inr ⟨_, rfl⟩

namespace Source.OfPoints

variable {source : Source α} {locations : List (Point α)} {radius km : α} {c : SiteCollection α}

theorem sitesWithin_cases (h : source.OfPoints locations radius) (km : α) (hc : c.WellFormed) :
    (∃ fault, source.sitesWithin km c = .error (.geometry fault) ∧
      source.box km = .error (.geometry fault)) ∨
    source.sitesWithin km c =
      if c.isEmpty then .ok none
      else (c.keep (c.toList.map (·.isReached locations (km + radius)))).mapError .badSites := by
  cases h with
  | point s =>
    rw [← pointMask_eq]
    simp only [PointSource.toSource]
    rcases checkReach_cases km with hreach | ⟨fault, hreach⟩
    · rw [hreach]
      exact .inr rfl
    · rw [hreach]
      exact .inl ⟨fault, rfl, rfl⟩
  | multi s =>
    rw [← nearMask_unmarked _ _ hc]
    simp only [MultiPointSource.toSource]
    rcases checkReach_cases km with hreach | ⟨fault, hreach⟩
    · rcases s.checkLocations_cases with hlocations | ⟨fault, hlocations⟩
      · rw [hreach, hlocations]
        exact .inr rfl
      · rw [hreach, hlocations]
        exact .inl ⟨fault, rfl, rfl⟩
    · rw [hreach]
      exact .inl ⟨fault, rfl, rfl⟩

theorem sitesWithin_eq (h : source.OfPoints locations radius) (hkm : Source.checkReach km = .ok ())
    (hne : locations ≠ []) (hc : c.WellFormed) :
    source.sitesWithin km c =
      if c.isEmpty then .ok none
      else (c.keep (c.toList.map (·.isReached locations (km + radius)))).mapError .badSites := by
  cases h with
  | point s =>
    rw [← pointMask_eq]
    simp only [PointSource.toSource, hkm]
    rfl
  | multi s =>
    have hlocations : s.checkLocations = .ok () := by
      unfold MultiPointSource.checkLocations
      rw [if_neg (by simpa using hne)]
    rw [← nearMask_unmarked _ _ hc]
    simp only [MultiPointSource.toSource, hkm, hlocations]
    rfl

theorem sitesWithin (h : source.OfPoints locations radius) {b : Box α}
    (hbox : source.box km = .ok b) (hc : c.WellFormed) :
    ∃ r, source.sitesWithin km c = .ok r ∧ c.Part (·.isReached locations (km + radius)) r := by
  rcases h.sitesWithin_cases km hc with ⟨_, -, hfault⟩ | heq
  · rw [hbox] at hfault
    contradiction
  · rw [heq]
    exact hc.search_filter (Error.badSites (α := α)) (·.isReached locations (km + radius))

theorem geometry_of_box (h : source.OfPoints locations radius) {e : Error α}
    (hbox : source.box km = .error e) : ∃ fault, e = .geometry fault := by
  cases h with
  | point s =>
    simp only [PointSource.toSource] at hbox
    rcases checkReach_cases km with hreach | ⟨fault, hreach⟩
    · rw [hreach] at hbox
      contradiction
    · rw [hreach] at hbox
      exact ⟨fault, (Except.error.inj hbox).symm⟩
  | multi s =>
    simp only [MultiPointSource.toSource] at hbox
    rcases checkReach_cases km with hreach | ⟨fault, hreach⟩
    · rcases s.checkLocations_cases with hlocations | ⟨fault, hlocations⟩
      · rw [hreach, hlocations] at hbox
        cases henclosing : Box.enclosing (s.locations.map (·.lon)) (s.locations.map (·.lat)) with
        | ok b =>
          rw [henclosing] at hbox
          contradiction
        | error fault =>
          rw [henclosing] at hbox
          exact ⟨fault, (Except.error.inj hbox).symm⟩
      · rw [hreach, hlocations] at hbox
        exact ⟨fault, (Except.error.inj hbox).symm⟩
    · rw [hreach] at hbox
      exact ⟨fault, (Except.error.inj hbox).symm⟩

end Source.OfPoints

end Search

section Exact

variable {K : Type} [Field K] [LinearOrder K] [FloorRing K] [IsStrictOrderedRing K]

private theorem exists_of_bind_ok {ε β γ : Type} {x : Except ε β} {f : β → Except ε γ} {r : γ}
    (h : x >>= f = .ok r) : ∃ y, x = .ok y ∧ f y = .ok r := by
  cases x with
  | error e => contradiction
  | ok y => exact ⟨y, rfl, h⟩

theorem Box.enclosing_singleton {lon : K} (lat : K) (hlow : -180 ≤ lon) (hhigh : lon ≤ 180) :
    Box.enclosing [lon] [lat] = .ok (Box.ofLocation lon lat) := by
  have hextent : ¬Longitude.extent lon lon < 0 := by
    rw [Longitude.extent_eq (by linarith) (by linarith)]
    norm_num
  unfold Box.enclosing
  simp only [Scalar.bounds?, List.foldl_nil, List.length_singleton, ne_eq, not_true_eq_false,
    if_false]
  rw [if_neg (by simpa using ⟨hlow, hhigh⟩), if_neg hextent]
  rfl

omit [IsStrictOrderedRing K] in
theorem Source.checkReach_ok_iff {km : K} {u : Unit} : checkReach km = .ok u ↔ 0 ≤ km := by
  rw [← Scalar.isExtent_exact_iff]
  exact checkReach_iff

omit [IsStrictOrderedRing K] in
theorem PointSource.box_eq [Trig K] (s : PointSource K) {km : K} (hkm : 0 ≤ km) :
    s.toSource.box km =
      .ok ((Box.ofLocation s.location.lon s.location.lat).enlarged (km + s.maxRuptureRadius)) := by
  have hreach : Source.checkReach km = .ok () := Source.checkReach_ok_iff.mpr hkm
  unfold toSource
  simp only [hreach]
  rfl

theorem Source.OfPoints.box [Trig K] {source : Source K} {locations : List (Point K)}
    {radius km : K} (h : source.OfPoints locations radius)
    (hlon : ∀ p ∈ locations, -180 ≤ p.lon ∧ p.lon ≤ 180) {b : Box K}
    (hbox : source.box km = .ok b) :
    0 ≤ km ∧ ∃ around, Box.enclosing (locations.map (·.lon)) (locations.map (·.lat)) = .ok around ∧
      b = around.enlarged (km + radius) := by
  cases h with
  | point s =>
    have hrange := hlon s.location (List.mem_singleton_self _)
    obtain ⟨_, hreach, hbox⟩ := exists_of_bind_ok hbox
    refine ⟨checkReach_ok_iff.mp hreach, _, Box.enclosing_singleton _ hrange.1 hrange.2, ?_⟩
    exact (Except.ok.inj hbox).symm
  | multi s =>
    obtain ⟨_, hreach, hbox⟩ := exists_of_bind_ok hbox
    obtain ⟨_, hlocations, hbox⟩ := exists_of_bind_ok hbox
    obtain ⟨around, haround, hbox⟩ := exists_of_bind_ok hbox
    refine ⟨checkReach_ok_iff.mp hreach, around, ?_, (Except.ok.inj hbox).symm⟩
    cases henclosing : Box.enclosing (s.locations.map (·.lon)) (s.locations.map (·.lat)) with
    | error e =>
      rw [henclosing] at haround
      contradiction
    | ok b =>
      rw [henclosing] at haround
      exact congrArg Except.ok (Except.ok.inj haround)

end Exact

end HazardReach
