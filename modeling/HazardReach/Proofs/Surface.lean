import HazardReach.Proofs.Source.Points
import HazardReach.Surface.Plane

/-! Planes and points, measured. A plane is made below each top edge that has a length, of any dip
and width in range. Whatever is measured from a surface of either kind is one value for each point
of the mesh, so that a rupture on it gives one distance for each site. -/
namespace HazardReach

theorem length_of_mapM {β γ ε : Type} {f : β → Except ε γ} {xs : List β} {ys : List γ}
    (h : xs.mapM f = .ok ys) : ys.length = xs.length := by
  induction xs generalizing ys with
  | nil =>
    rw [← Except.ok.inj h]
    rfl
  | cons x xs ih =>
    rw [List.mapM_cons] at h
    cases hx : f x with
    | error e =>
      rw [hx] at h
      contradiction
    | ok y =>
      cases hxs : xs.mapM f with
      | error e =>
        rw [hx, hxs] at h
        contradiction
      | ok zs =>
        rw [hx, hxs] at h
        rw [← Except.ok.inj h, List.length_cons, List.length_cons, ih hxs]

variable {α : Type}

/-- A surface gives one value for each point of a mesh. -/
structure Surface.MeasuresEach (s : Surface α) (mesh : Mesh α) : Prop where
  rrup : ∀ distances, s.rrup mesh = .ok distances → distances.length = mesh.size
  rjb : (s.rjb mesh).length = mesh.size
  rx : (s.rx mesh).length = mesh.size
  ry0 : (s.ry0 mesh).length = mesh.size
  azimuth : (s.azimuth mesh).length = mesh.size
  directivity : ∀ hypocenter slip distances,
    s.directivity hypocenter slip mesh = .ok distances → distances.length = mesh.size

theorem SiteCollection.WellFormed.size_mesh [Scalar α] {c : SiteCollection α} (hc : c.WellFormed) :
    c.mesh.size = c.size ∧ c.mesh.points.length = c.mesh.size := by
  have hsize : c.mesh.size = c.size :=
    (List.length_map _).trans ((List.length_map _).trans hc.length_toList)
  refine ⟨hsize, ?_⟩
  rw [hsize, SiteCollection.mesh, Mesh.points_ofPoints, List.length_map, hc.length_toList]

variable [Scalar α] [Trig α]

namespace Plane

section Clamp

omit [Trig α]

theorem clamp_of_nonneg {hi : α} (h : 0 ≤ hi) (x : α) :
    clamp x hi = .ok (if x < 0 then 0 else if hi < x then hi else x) := by
  unfold clamp Scalar.clamp?
  rw [if_pos h]

theorem clamp_of_not_nonneg {hi : α} (h : ¬0 ≤ hi) (x : α) :
    clamp x hi = .error .undefinedClamp := by
  unfold clamp Scalar.clamp?
  rw [if_neg h]

end Clamp

/-- East and north along the top edge. -/
def edge (topLeft topRight : Point α) : α × α :=
  offset topLeft (Trig.cos (Trig.toRadians topLeft.lat)) topRight.lon topRight.lat

/-- What a top edge, a dip and a width have to be for there to be a plane, and what is kept of
them. -/
structure Accepts (topLeft topRight : Point α) (dip width : α) (s : Plane α) : Prop where
  dip_mem : 0 < dip ∧ dip ≤ 90
  isExtent_width : Scalar.isExtent width = true
  topLeft_eq : s.topLeft = topLeft
  dip_eq : s.dip = dip
  width_eq : s.width = width
  length_ne : (s.length == 0) = false
  length_eq : s.length = Trig.hypot (edge topLeft topRight).1 (edge topLeft topRight).2

/-- The direction of a plane, as a vector and as a bearing, is that of its top edge. -/
structure Framed (topLeft topRight : Point α) (s : Plane α) : Prop where
  along_eq : s.along =
    ((edge topLeft topRight).1 / s.length, (edge topLeft topRight).2 / s.length)
  strike_eq : s.strike = Scalar.emod
    (Trig.toDegrees (Trig.atan2 (edge topLeft topRight).1 (edge topLeft topRight).2)) 360

theorem kept_of_ofTopEdge {topLeft topRight : Point α} {dip width : α} {s : Plane α}
    (h : ofTopEdge topLeft topRight dip width = .ok s) :
    Accepts topLeft topRight dip width s ∧ Framed topLeft topRight s := by
  unfold ofTopEdge at h
  split at h
  · contradiction
  · rename_i hdip
    split at h
    · contradiction
    · rename_i hwidth
      dsimp only at h
      split at h
      · contradiction
      · rename_i hlength
        rw [← Except.ok.inj h]
        exact ⟨⟨by simpa using hdip, by simpa using hwidth, rfl, rfl, rfl,
          by simpa using hlength, rfl⟩, rfl, rfl⟩

theorem accepts_of_ofTopEdge {topLeft topRight : Point α} {dip width : α} {s : Plane α}
    (h : ofTopEdge topLeft topRight dip width = .ok s) : Accepts topLeft topRight dip width s :=
  (kept_of_ofTopEdge h).1

theorem exists_ofTopEdge_of_length {topLeft topRight : Point α} {dip width : α}
    (hdip : 0 < dip ∧ dip ≤ 90) (hwidth : Scalar.isExtent width = true)
    (hlength : (Trig.hypot (edge topLeft topRight).1 (edge topLeft topRight).2 == 0) = false) :
    ∃ s, ofTopEdge topLeft topRight dip width = .ok s := by
  unfold ofTopEdge
  rw [if_neg (by simpa using hdip), if_neg (by simpa using hwidth)]
  exact ⟨_, if_neg (by simpa [edge, offset] using hlength)⟩

end Plane

section Own

variable {mesh : Mesh α} (hmesh : mesh.points.length = mesh.size)

include hmesh

theorem Plane.measuresEach (s : Plane α) : s.toSurface.MeasuresEach mesh where
  rrup _ h := (length_of_mapM h).trans hmesh
  rjb := (List.length_map _).trans hmesh
  rx := (List.length_map _).trans hmesh
  ry0 := (List.length_map _).trans hmesh
  azimuth := (List.length_map _).trans hmesh
  directivity _ _ _ h := (length_of_mapM h).trans hmesh

theorem PointSurface.measuresEach (s : PointSurface α) : s.toSurface.MeasuresEach mesh where
  rrup _ h := by
    rw [← Except.ok.inj h]
    exact (List.length_map _).trans hmesh
  rjb := (List.length_map _).trans hmesh
  rx := (List.length_map _).trans hmesh
  ry0 := (List.length_map _).trans hmesh
  azimuth := (List.length_map _).trans hmesh
  directivity _ _ _ h := by
    rw [← Except.ok.inj h]
    exact List.length_replicate

end Own

theorem Rupture.length_distances {r : Rupture α} {mesh : Mesh α}
    (h : r.surface.MeasuresEach mesh) (hpoints : mesh.points.length = mesh.size) {metric : Metric}
    {distances : List α} (hdistances : r.distances mesh metric = .ok distances) :
    distances.length = mesh.size := by
  cases metric with
  | rrup => exact h.rrup _ hdistances
  | rcdpp =>
    change r.directivity mesh = _ at hdistances
    unfold Rupture.directivity at hdistances
    split at hdistances
    · exact h.directivity _ _ _ hdistances
    · contradiction
  | rjb => exact Except.ok.inj hdistances ▸ h.rjb
  | rx => exact Except.ok.inj hdistances ▸ h.rx
  | ry0 => exact Except.ok.inj hdistances ▸ h.ry0
  | azimuth => exact Except.ok.inj hdistances ▸ h.azimuth
  | rhypo =>
    rw [← Except.ok.inj hdistances]
    exact (List.length_map _).trans hpoints
  | repi =>
    rw [← Except.ok.inj hdistances]
    exact (List.length_map _).trans hpoints

/-- Whatever distances the rupture gives, there is one for each site. -/
def Rupture.MeasuresEach (r : Rupture α) (c : SiteCollection α) (metric : Metric) : Prop :=
  ∀ distances, r.distances c.mesh metric = .ok distances → distances.length = c.size

theorem Rupture.measuresEach_of_surface {r : Rupture α} {c : SiteCollection α}
    (h : r.surface.MeasuresEach c.mesh) (hc : c.WellFormed) (metric : Metric) :
    r.MeasuresEach c metric := by
  obtain ⟨hsize, hpoints⟩ := hc.size_mesh
  intro distances hdistances
  rw [← hsize]
  exact length_distances h hpoints hdistances

end HazardReach
