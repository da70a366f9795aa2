import HazardReach.Double
import HazardReach.Proofs.Surface
import HazardReach.Proofs.Wire.Record

/-! Meshes of parallel lists. Those that are made from lists, from points or from sites are
parallel, and their size counts whatever is taken from them. A mesh that is read has the lists that
were written, of any lengths. Its points end with the shortest of them, while its size is that of
the longitudes. -/
namespace HazardReach

namespace Mesh

variable {α : Type}

/-- Each list has an entry for every point. -/
structure Parallel (m : Mesh α) : Prop where
  lats : m.lats.length = m.lons.length
  depths : m.depths.length = m.lons.length

/-- The meshes that are made here, and not read. -/
inductive Made [Scalar α] : Mesh α → Prop where
  | lists {lons lats depths : List α} {m : Mesh α} (h : ofLists lons lats depths = .ok m) : Made m
  | points (points : List (Point α)) : Made (ofPoints points)
  | sites (c : SiteCollection α) : Made c.mesh

theorem ofLists_eq_ok_iff {lons lats depths : List α} {m : Mesh α} :
    ofLists lons lats depths = .ok m ↔
      (lons.length = lats.length ∧ lons.length = depths.length) ∧ ⟨lons, lats, depths⟩ = m := by
  unfold ofLists
  by_cases h : lons.length = lats.length ∧ lons.length = depths.length
  · rw [if_pos h, Except.ok.injEq, and_iff_right h]
  · rw [if_neg h]
    exact ⟨nofun, fun hm => (h hm.1).elim⟩

theorem parallel_ofPoints (points : List (Point α)) : (ofPoints points).Parallel :=
  ⟨by simp [ofPoints], by simp [ofPoints]⟩

theorem Made.parallel [Scalar α] {m : Mesh α} (h : m.Made) : m.Parallel := by
  cases h with
  | lists h =>
    obtain ⟨⟨hlats, hdepths⟩, rfl⟩ := ofLists_eq_ok_iff.mp h
    exact ⟨hlats.symm, hdepths.symm⟩
  | points points => exact parallel_ofPoints points
  | sites c => exact parallel_ofPoints _

theorem size_ofPoints (points : List (Point α)) : (ofPoints points).size = points.length := by
  simp [ofPoints, size]

theorem length_points (m : Mesh α) :
    m.points.length = min (min m.lons.length m.lats.length) m.depths.length := by
  simp [points]

theorem length_points_eq_size_iff {m : Mesh α} : m.points.length = m.size ↔
    m.lons.length ≤ m.lats.length ∧ m.lons.length ≤ m.depths.length := by
  rw [length_points, size]
  omega

theorem get?_eq_getElem? (m : Mesh α) (i : Nat) : m.get? i = m.points[i]? := by
  unfold get? points List.zip
  rw [List.getElem?_map, List.getElem?_zipWith, List.getElem?_zipWith]
  cases m.lons[i]? <;> cases m.lats[i]? <;> cases m.depths[i]? <;> rfl

def numbers (m : Mesh α) : List α := m.lons ++ m.lats ++ m.depths

theorem decode_encoded [Scalar α] [NumberText α] {m : Mesh α}
    (h : ∀ x ∈ m.numbers, Wire.ReadsBack x) :
    Wire.meshCodec.decode (Wire.meshCodec.encode m) = .ok m := by
  have hlist (xs : List α) (hxs : ∀ x ∈ xs, Wire.ReadsBack x) :
      (Wire.Codec.list .number).Carries xs xs :=
    .list (List.forall₂_same.mpr fun x hx => .number (hxs x hx))
  simp only [numbers, List.forall_mem_append] at h
  apply Wire.Codec.Carries.decode_eq
  refine .refine (y := (m.lons, m.lats, m.depths, ())) (.record (of_decide_eq_true rfl) ?_) rfl
  exact .required (hlist _ h.1.1) (.required (hlist _ h.1.2) (.required (hlist _ h.2) trivial))

section Measured

variable [Scalar α] [Trig α]

/-- The surfaces of ruptures, with how many directivities each gives for a mesh. -/
inductive Runs (m : Mesh α) : Surface α → Nat → Prop where
  | point (s : PointSurface α) : Runs m s.toSurface m.size
  | plane (s : Plane α) : Runs m s.toSurface m.points.length

theorem Runs.eq_size {m : Mesh α} {s : Surface α} {runs : Nat} (h : m.Runs s runs)
    (hpoints : m.points.length = m.size) : runs = m.size := by
  cases h with
  | point => rfl
  | plane => exact hpoints

theorem Runs.measuresEach {m : Mesh α} {s : Surface α} {runs : Nat} (h : m.Runs s runs)
    (points : List (Point α)) : s.MeasuresEach (ofPoints points) := by
  have hpoints : (ofPoints points).points.length = (ofPoints points).size := by
    rw [points_ofPoints, size_ofPoints]
  cases h with
  | point s => exact s.measuresEach hpoints
  | plane s => exact s.measuresEach hpoints

theorem Runs.distances_eq {m : Mesh α} {r : Rupture α} {runs : Nat} (h : m.Runs r.surface runs)
    {metric : Metric} (hmetric : metric ≠ .rcdpp ∨ runs = m.points.length) :
    r.distances m metric = r.distances (ofPoints m.points) metric := by
  have hpoints := points_ofPoints m.points
  have hsize := size_ofPoints m.points
  generalize hs : r.surface = surface at h
  cases h with
  | plane s =>
    cases metric <;> simp [Rupture.distances, Rupture.directivity, hs, Plane.toSurface,
      Point.hypocentrals, Point.epicentrals, hpoints]
  | point s =>
    cases metric with
    | rcdpp =>
      have hruns : m.size = m.points.length := by simpa using hmetric
      simp [Rupture.distances, Rupture.directivity, hs, PointSurface.toSurface, hruns, hsize]
    | _ => simp [Rupture.distances, hs, PointSurface.toSurface, Point.hypocentrals,
        Point.epicentrals, hpoints]

theorem Runs.length_distances {m : Mesh α} {r : Rupture α} {runs : Nat}
    (h : m.Runs r.surface runs) {metric : Metric} {distances : List α}
    (hdistances : r.distances m metric = .ok distances) :
    distances.length = if metric = .rcdpp then runs else m.points.length := by
  by_cases hmetric : metric ≠ .rcdpp ∨ runs = m.points.length
  · rw [h.distances_eq hmetric] at hdistances
    have hlength := Rupture.length_distances (h.measuresEach m.points)
      (by rw [points_ofPoints, size_ofPoints]) hdistances
    rw [hlength, size_ofPoints]
    split
    · rename_i hrcdpp
      exact (hmetric.resolve_left (not_not.mpr hrcdpp)).symm
    · rfl
  -- What is left is the directivity from a point, over a mesh whose size does not count its points.
  · obtain ⟨hrcdpp, hruns⟩ := not_or.mp hmetric
    rw [not_not] at hrcdpp
    subst hrcdpp
    change r.directivity m = _ at hdistances
    generalize hs : r.surface = surface at h
    cases h with
    | plane s => contradiction
    | point s =>
      unfold Rupture.directivity at hdistances
      split at hdistances
      · rw [hs] at hdistances
        rw [← Except.ok.inj hdistances, if_pos rfl]
        exact List.length_replicate
      · contradiction

/-- What the size of a mesh counts. -/
structure Aligned (m : Mesh α) : Prop where
  points : m.points.length = m.size
  get? : ∀ i, (m.get? i).isSome = true ↔ i < m.size
  distances : ∀ (r : Rupture α) (runs : Nat), m.Runs r.surface runs →
    ∀ (metric : Metric) (distances : List α), r.distances m metric = .ok distances →
      distances.length = m.size

theorem aligned_iff {m : Mesh α} : m.Aligned ↔
    m.lons.length ≤ m.lats.length ∧ m.lons.length ≤ m.depths.length := by
  rw [← length_points_eq_size_iff]
  refine ⟨Aligned.points, fun hpoints => ⟨hpoints, ?_, ?_⟩⟩
  · intro i
    rw [get?_eq_getElem?, ← hpoints]
    simp
  · intro r runs h metric distances hdistances
    rw [h.length_distances hdistances, h.eq_size hpoints, hpoints, ite_self]

theorem Parallel.aligned {m : Mesh α} (h : m.Parallel) : m.Aligned :=
  aligned_iff.mpr ⟨h.lats.ge, h.depths.ge⟩

/-- Meshes that are made are parallel, and the size of a parallel mesh counts its points, the
positions that have one and the values of every metric. It does so for a mesh that is read just when
no other list is shorter than the longitudes, and a mesh is read with any lists. -/
theorem parallel_spec [NumberText α] :
    (∀ lons lats depths : List α, (∃ m, ofLists lons lats depths = .ok m) ↔
      (⟨lons, lats, depths⟩ : Mesh α).Parallel) ∧
    (∀ m : Mesh α, m.Made → m.Parallel) ∧
    (∀ m : Mesh α, m.Parallel → m.Aligned) ∧
    (∀ m : Mesh α, (∀ x ∈ m.numbers, Wire.ReadsBack x) →
      Wire.meshCodec.decode (Wire.meshCodec.encode m) = .ok m) ∧
    ∀ m : Mesh α,
      (m.Aligned ↔ m.lons.length ≤ m.lats.length ∧ m.lons.length ≤ m.depths.length) ∧
      m.points.length = min (min m.lons.length m.lats.length) m.depths.length ∧
      (∀ i, m.get? i = m.points[i]?) ∧
      ∀ (r : Rupture α) (runs : Nat), m.Runs r.surface runs →
        ∀ (metric : Metric) (distances : List α), r.distances m metric = .ok distances →
          distances.length = if metric = .rcdpp then runs else m.points.length := by
  refine ⟨?_, fun m => Made.parallel, fun m => Parallel.aligned, fun m => decode_encoded, ?_⟩
  · intro lons lats depths
    constructor
    · rintro ⟨m, hm⟩
      obtain ⟨⟨hlats, hdepths⟩, -⟩ := ofLists_eq_ok_iff.mp hm
      exact ⟨hlats.symm, hdepths.symm⟩
    · rintro ⟨hlats, hdepths⟩
      exact ⟨_, ofLists_eq_ok_iff.mpr ⟨⟨hlats.symm, hdepths.symm⟩, rfl⟩⟩
  · intro m
    exact ⟨aligned_iff, m.length_points, m.get?_eq_getElem?, fun r runs h metric distances =>
      h.length_distances⟩

end Measured

theorem parallel_spec_pair : ∃ m : Mesh Float, ofLists [0, 1] [2, 3] [0, 0.5] = .ok m ∧ m.Aligned ∧
    m.get? 1 = some ⟨1, 3, 0.5⟩ ∧ m.get? 2 = none ∧
    Wire.meshCodec.decode (Wire.meshCodec.encode m) = .ok m := by
  obtain ⟨hlists, hmade, haligned, hread, -⟩ := @parallel_spec Float _ _ _
  have hm : ofLists [0, 1] [2, 3] [0, 0.5] = .ok (⟨[0, 1], [2, 3], [0, 0.5]⟩ : Mesh Float) := rfl
  refine ⟨_, hm, haligned _ (hmade _ (.lists hm)), rfl, rfl, hread _ ?_⟩
  change ∀ x ∈ ([0, 1, 2, 3, 0, 0.5] : List Float), Wire.ReadsBack x
  simp only [List.forall_mem_cons]
  exact ⟨rfl, rfl, rfl, rfl, rfl, rfl, by simp⟩

/-- Two longitudes and depths, and a single latitude. -/
def uneven : Mesh Float := ⟨[0, 1], [0], [0, 0]⟩

/-- A mesh of two longitudes but one latitude is read. It has one point, and its size is two: its
second position is empty, and from a point it has one distance and two directivities. -/
theorem exists_read_not_parallel : ∃ (m : Mesh Float) (r : Rupture Float) (rrup : Float),
    m = ⟨[0, 1], [0], [0, 0]⟩ ∧ Wire.meshCodec.decode
      "\x7b\"lons\":[0.0,1.0],\"lats\":[0.0],\"depths\":[0.0,0.0]\x7d" = .ok m ∧
    ¬m.Parallel ∧ m.size = 2 ∧ m.points.length = 1 ∧ m.get? 1 = none ∧
    r.surface = PointSurface.toSurface ⟨⟨0, 0, 0⟩, 0⟩ ∧ r.distances m .rrup = .ok [rrup] ∧
    r.distances m .rcdpp = .ok [0, 0] := by
  have hread : Wire.meshCodec.decode
      "\x7b\"lons\":[0.0,1.0],\"lats\":[0.0],\"depths\":[0.0,0.0]\x7d" =
        .ok uneven := by
    apply decode_encoded (m := uneven)
    change ∀ x ∈ ([0, 1, 0, 0, 0] : List Float), Wire.ReadsBack x
    simp only [List.forall_mem_cons]
    exact ⟨rfl, rfl, rfl, rfl, rfl, by simp⟩
  exact ⟨uneven, ⟨5, 0, "any", ⟨0, 0, 0⟩, PointSurface.toSurface ⟨⟨0, 0, 0⟩, 0⟩, some 0⟩, _, rfl,
    hread, fun h => absurd h.lats (by decide), rfl, rfl, rfl, rfl, rfl, rfl⟩

end Mesh

end HazardReach
