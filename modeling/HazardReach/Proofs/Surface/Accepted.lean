import HazardReach.Proofs.Double.Length
import HazardReach.Proofs.Surface

/-! Planes below an accepted top edge, in doubles. An edge is refused when its length is zero, and
only then: a length that is not a number is not zero. From such a plane nothing can be measured,
because no bound of a clamp is in order with what is not a number. From all others one value is
measured for each point. -/
namespace HazardReach

section Traversal

variable {β γ ε : Type} {f : β → Except ε γ}

theorem exists_mapM (h : ∀ x, ∃ y, f x = .ok y) (xs : List β) :
    ∃ ys, xs.mapM f = .ok ys := by
  induction xs with
  | nil => exact ⟨[], rfl⟩
  | cons x xs ih =>
    obtain ⟨y, hy⟩ := h x
    obtain ⟨ys, hys⟩ := ih
    rw [List.mapM_cons, hy, hys]
    exact ⟨_, rfl⟩

theorem mapM_of_error {e : ε} (h : ∀ x, f x = .error e) {xs : List β} (hne : xs ≠ []) :
    xs.mapM f = .error e := by
  obtain ⟨x, rest, rfl⟩ := List.exists_cons_of_ne_nil hne
  rw [List.mapM_cons, h x]
  rfl

end Traversal

namespace Plane

section Bounds

variable {α : Type} [Scalar α] [Trig α]

variable {s : Plane α}

theorem exists_closest_of_nonneg (hlength : 0 ≤ s.length) (hwidth : 0 ≤ s.width) (p : Point α) :
    ∃ d, s.closest p = .ok d := by
  unfold closest
  dsimp only
  rw [clamp_of_nonneg hlength, clamp_of_nonneg hwidth]
  exact ⟨_, rfl⟩

theorem exists_directivityAt_of_nonneg (hlength : 0 ≤ s.length) (hypocenter : Point α) (slip : α)
    (p : Point α) : ∃ d, s.directivityAt hypocenter slip p = .ok d := by
  unfold directivityAt
  rw [clamp_of_nonneg hlength, clamp_of_nonneg hlength]
  exact ⟨_, rfl⟩

theorem closest_of_not_nonneg (h : ¬0 ≤ s.length) (p : Point α) :
    s.closest p = .error .undefinedClamp := by
  unfold closest
  dsimp only
  rw [clamp_of_not_nonneg h]
  rfl

theorem directivityAt_of_not_nonneg (h : ¬0 ≤ s.length) (hypocenter : Point α) (slip : α)
    (p : Point α) : s.directivityAt hypocenter slip p = .error .undefinedClamp := by
  unfold directivityAt
  rw [clamp_of_not_nonneg h]
  rfl

/-- What a plane makes of any mesh: a distance and a directivity for each of its points. -/
structure Measures (s : Plane α) (mesh : Mesh α) : Prop where
  rrup : ∃ distances, s.toSurface.rrup mesh = .ok distances ∧
    distances.length = mesh.points.length
  directivity : ∀ hypocenter slip, ∃ values,
    s.toSurface.directivity hypocenter slip mesh = .ok values ∧ values.length = mesh.points.length

/-- A clamp without bounds in order ends both. -/
structure Fails (s : Plane α) (mesh : Mesh α) : Prop where
  rrup : s.toSurface.rrup mesh = .error .undefinedClamp
  directivity : ∀ hypocenter slip,
    s.toSurface.directivity hypocenter slip mesh = .error .undefinedClamp

theorem Measures.not_fails {mesh : Mesh α} (h : s.Measures mesh) : ¬s.Fails mesh := by
  intro hfails
  obtain ⟨distances, hrrup, -⟩ := h.rrup
  rw [hfails.rrup] at hrrup
  contradiction

theorem measures_of_nonneg (hlength : 0 ≤ s.length) (hwidth : 0 ≤ s.width) (mesh : Mesh α) :
    s.Measures mesh where
  rrup := by
    obtain ⟨distances, h⟩ := exists_mapM (exists_closest_of_nonneg hlength hwidth) mesh.points
    exact ⟨distances, h, length_of_mapM h⟩
  directivity hypocenter slip := by
    obtain ⟨values, h⟩ :=
      exists_mapM (exists_directivityAt_of_nonneg hlength hypocenter slip) mesh.points
    exact ⟨values, h, length_of_mapM h⟩

theorem measures_of_points_eq_nil {mesh : Mesh α} (h : mesh.points = []) : s.Measures mesh where
  rrup := ⟨[], by simp [toSurface, h, pure, Except.pure], by simp [h]⟩
  directivity _ _ := ⟨[], by simp [toSurface, h, pure, Except.pure], by simp [h]⟩

theorem fails_of_not_nonneg (h : ¬0 ≤ s.length) {mesh : Mesh α} (hne : mesh.points ≠ []) :
    s.Fails mesh where
  rrup := mapM_of_error (closest_of_not_nonneg h) hne
  directivity hypocenter slip := mapM_of_error (directivityAt_of_not_nonneg h hypocenter slip) hne

theorem measures_or_fails (hwidth : 0 ≤ s.width) (mesh : Mesh α) :
    (s.Measures mesh ↔ 0 ≤ s.length ∨ mesh.points = []) ∧
      (s.Fails mesh ↔ ¬(0 ≤ s.length ∨ mesh.points = [])) := by
  by_cases h : 0 ≤ s.length ∨ mesh.points = []
  · have hmeasures : s.Measures mesh :=
      h.elim (measures_of_nonneg · hwidth mesh) measures_of_points_eq_nil
    exact ⟨iff_of_true hmeasures h, iff_of_false hmeasures.not_fails (not_not.mpr h)⟩
  · have hfails : s.Fails mesh := fails_of_not_nonneg (mt .inl h) (mt .inr h)
    exact ⟨iff_of_false (fun hmeasures => hmeasures.not_fails hfails) h, iff_of_true hfails h⟩

end Bounds

section Doubles

open Double

variable {topLeft topRight : Point Float} {dip width : Float} {s : Plane Float}

theorem isNaN_extent {origin lon : Float} (h : (lon - origin + 180).isFinite = false) :
    (Longitude.extent origin lon).isNaN = true := by
  have hcond : ((lon - origin + 180).isNaN || (360 : Float).isNaN || (lon - origin + 180).isInf ||
      (360 : Float) == 0) = true := by
    change (parts (lon - origin + 180)).isFinite = false at h
    change ((parts (lon - origin + 180)).isNaN || _ || (parts (lon - origin + 180)).isInf || _) =
      true
    generalize parts (lon - origin + 180) = u at h
    cases u <;> first | rfl | contradiction
  have htmod : tmod (lon - origin + 180) 360 = notANumber := if_pos hcond
  have hemod : Scalar.emod (lon - origin + 180) 360 = notANumber := by
    change (if tmod _ 360 < 0 then _ else tmod (lon - origin + 180) 360) = _
    rw [htmod]
    exact if_neg (by decide)
  unfold Longitude.extent
  rw [hemod]
  decide

theorem isNaN_hypot_edge (hlon : (topRight.lon - topLeft.lon + 180).isFinite = false)
    (hlat : (edge topLeft topRight).2.isInf = false) :
    (Double.length (edge topLeft topRight).1 (edge topLeft topRight).2).isNaN = true := by
  have heast : (edge topLeft topRight).1.isNaN = true :=
    isNaN_mul_left (isNaN_mul_left (isNaN_extent hlon) _) _
  rw [isNaN_length_iff, isInf_of_isNaN heast, hlat, heast]
  exact ⟨rfl, rfl⟩

theorem exists_ofTopEdge_isNaN (hdip : 0 < dip ∧ dip ≤ 90) (hwidth : Scalar.isExtent width = true)
    (hlon : (topRight.lon - topLeft.lon + 180).isFinite = false)
    (hlat : (edge topLeft topRight).2.isInf = false) :
    ∃ s, ofTopEdge topLeft topRight dip width = .ok s ∧ s.length.isNaN = true := by
  have hlength := isNaN_hypot_edge hlon hlat
  obtain ⟨s, hs⟩ := exists_ofTopEdge_of_length hdip hwidth (beq_eq_false_of_isNaN hlength 0)
  refine ⟨s, hs, ?_⟩
  rw [(accepts_of_ofTopEdge hs).length_eq]
  exact hlength

theorem Accepts.pos_or_isNaN (h : Accepts topLeft topRight dip width s) :
    0 < s.length ∨ s.length.isNaN = true := by
  cases hnan : s.length.isNaN with
  | true => exact .inr rfl
  | false =>
    left
    apply pos_of_nonneg _ h.length_ne
    rw [h.length_eq] at hnan ⊢
    exact length_nonneg hnan

theorem Accepts.nonneg_iff (h : Accepts topLeft topRight dip width s) :
    0 ≤ s.length ↔ 0 < s.length :=
  ⟨fun hnonneg => h.pos_or_isNaN.resolve_right fun hnan => not_nonneg_of_isNaN hnan hnonneg,
    nonneg_of_pos⟩

theorem Accepts.width_nonneg (h : Accepts topLeft topRight dip width s) : 0 ≤ s.width := by
  rw [h.width_eq]
  exact (Scalar.isExtent_iff.mp h.isExtent_width).2

/-- The length of an accepted plane is positive, unless the top edge goes from or to something that
is not a number and nowhere infinitely far. With a positive length every mesh is measured, and
without it only a mesh without points is. -/
theorem accepted_measures (h : ofTopEdge topLeft topRight dip width = .ok s) :
    (0 < s.length ∨ s.length.isNaN = true) ∧ 0 ≤ s.width ∧
    (s.length.isNaN = true ↔
      ((edge topLeft topRight).1.isInf || (edge topLeft topRight).2.isInf) = false ∧
        ((edge topLeft topRight).1.isNaN || (edge topLeft topRight).2.isNaN) = true) ∧
    ((topRight.lon - topLeft.lon + 180).isFinite = false →
      (edge topLeft topRight).2.isInf = false → s.length.isNaN = true) ∧
    ∀ mesh, (s.Measures mesh ↔ 0 < s.length ∨ mesh.points = []) ∧
      (s.Fails mesh ↔ ¬(0 < s.length ∨ mesh.points = [])) := by
  have haccepts := accepts_of_ofTopEdge h
  have hlength := haccepts.length_eq
  refine ⟨haccepts.pos_or_isNaN, haccepts.width_nonneg, ?_, ?_, ?_⟩
  · rw [hlength]
    exact isNaN_length_iff
  · rw [hlength]
    exact isNaN_hypot_edge
  · intro mesh
    rw [← haccepts.nonneg_iff]
    exact measures_or_fails haccepts.width_nonneg mesh

/-- Below an edge whose way north overflows, a plane measures, because its length is infinite. Below
one from a longitude that is not a number it does not. -/
theorem accepted_measures_overflow : ∃ s t : Plane Float,
    ofTopEdge ⟨0, 0, 0⟩ ⟨0, 1e307, 0⟩ 90 10 = .ok s ∧ 0 < s.length ∧
      s.Measures (.ofPoints [⟨0, 0, 0⟩]) ∧
    ofTopEdge ⟨notANumber, 0, 0⟩ ⟨1, 0, 0⟩ 90 10 = .ok t ∧ t.length.isNaN = true ∧
      t.Fails (.ofPoints [⟨0, 0, 0⟩]) := by
  have hinf : (edge ⟨0, 0, 0⟩ (⟨0, 1e307, 0⟩ : Point Float)).2.isInf = true := by
    decide +kernel
  obtain ⟨s, hs⟩ : ∃ s : Plane Float, ofTopEdge ⟨0, 0, 0⟩ ⟨0, 1e307, 0⟩ 90 10 = .ok s := by
    apply exists_ofTopEdge_of_length (by decide) (by decide)
    change (Double.length _ _ == 0) = false
    rw [length_of_isInf (by rw [hinf, Bool.or_true])]
    decide
  obtain ⟨t, ht, hnan⟩ : ∃ t : Plane Float, ofTopEdge ⟨notANumber, 0, 0⟩ ⟨1, 0, 0⟩ 90 10 = .ok t ∧
      t.length.isNaN = true :=
    exists_ofTopEdge_isNaN (by decide) (by decide) (by decide) (by decide)
  obtain ⟨hpos, -, hiff, -, hmeasures⟩ := accepted_measures hs
  obtain ⟨-, -, -, -, hfails⟩ := accepted_measures ht
  rw [hiff, hinf, Bool.or_true] at hpos
  have hlength : 0 < s.length := by simpa using hpos
  have hunmeasured : ¬0 < t.length := mt nonneg_of_pos (not_nonneg_of_isNaN hnan)
  refine ⟨s, t, hs, hlength, (hmeasures _).1.mpr (.inl hlength), ht, hnan, (hfails _).2.mpr ?_⟩
  exact not_or.mpr ⟨hunmeasured, List.cons_ne_nil _ _⟩

/-- Between a longitude that is not a number and another, and between longitudes whose difference
overflows, a plane is accepted that has no length and measures no point. -/
theorem exists_accepted_fails : ∃ s t : Plane Float,
    ofTopEdge ⟨notANumber, 0, 0⟩ ⟨1, 0, 0⟩ 90 10 = .ok s ∧ ¬0 < s.length ∧
      s.Fails (.ofPoints [⟨0, 0, 0⟩]) ∧
    ofTopEdge ⟨-1e308, 0, 0⟩ ⟨1e308, 0, 0⟩ 90 10 = .ok t ∧ ¬0 < t.length ∧
      t.Fails (.ofPoints [⟨0, 0, 0⟩]) := by
  have hpoint : (Mesh.ofPoints [(⟨0, 0, 0⟩ : Point Float)]).points ≠ [] := List.cons_ne_nil _ _
  obtain ⟨s, hs, hsnan⟩ : ∃ s : Plane Float,
      ofTopEdge ⟨notANumber, 0, 0⟩ ⟨1, 0, 0⟩ 90 10 = .ok s ∧ s.length.isNaN = true :=
    exists_ofTopEdge_isNaN (by decide) (by decide) (by decide) (by decide)
  obtain ⟨t, ht, htnan⟩ : ∃ t : Plane Float,
      ofTopEdge ⟨-1e308, 0, 0⟩ ⟨1e308, 0, 0⟩ 90 10 = .ok t ∧ t.length.isNaN = true :=
    exists_ofTopEdge_isNaN (by decide) (by decide) (by decide +kernel) (by decide)
  have hs' := not_nonneg_of_isNaN hsnan
  have ht' := not_nonneg_of_isNaN htnan
  exact ⟨s, t, hs, mt nonneg_of_pos hs', fails_of_not_nonneg hs' hpoint, ht,
    mt nonneg_of_pos ht', fails_of_not_nonneg ht' hpoint⟩

end Doubles

end Plane

end HazardReach
