import HazardReach.Proofs.Site.Membership

/-! Collections that differ in their origin. A set does not depend on its origin but for telling it
apart from others: a collection that is built anew from its sites and the identifiers of its view is
the same collection under the origin that it is given. -/
namespace HazardReach

variable {α : Type}

theorem SiteSet.isFinite_of_index [Scalar α] {sites : List (Site α)} {i : Nat}
    {positions result : Std.HashMap SiteId Nat} (h : index sites i positions = .ok result) :
    ∀ s ∈ sites, s.isFinite = true := by
  induction sites generalizing i positions with
  | nil => simp
  | cons s rest ih =>
    rw [index] at h
    split at h
    · contradiction
    · rename_i hfinite
      split at h
      · contradiction
      · exact List.forall_mem_cons.mpr ⟨by simpa using hfinite, ih h⟩

namespace SiteCollection

/-- The same collection over a set of another origin. -/
def withOrigin (c : SiteCollection α) (origin : Nat) : SiteCollection α :=
  ⟨{ c.whole with origin }, c.selection⟩

section WithOrigin

variable (c : SiteCollection α) (origin : Nat)

@[simp] theorem toList_withOrigin : (c.withOrigin origin).toList = c.toList := rfl

@[simp] theorem ids_withOrigin : (c.withOrigin origin).ids = c.ids := rfl

@[simp] theorem size_withOrigin : (c.withOrigin origin).size = c.size := rfl

@[simp] theorem isComplete_withOrigin :
    (c.withOrigin origin).isComplete = c.isComplete := rfl

@[simp] theorem complete_withOrigin :
    (c.withOrigin origin).complete = c.complete.withOrigin origin := rfl

theorem keep_withOrigin (mask : List Bool) :
    (c.withOrigin origin).keep mask = (c.keep mask).map (Option.map (·.withOrigin origin)) := by
  unfold keep
  rw [size_withOrigin]
  split
  · rfl
  split
  · rfl
  split <;> rfl

end WithOrigin

theorem WellFormed.withOrigin {c : SiteCollection α} (h : c.WellFormed) (origin : Nat) :
    (c.withOrigin origin).WellFormed :=
  ⟨h.whole, h.selection⟩

theorem WellFormed.select_ids {c : SiteCollection α} (h : c.WellFormed) (hne : c.toList ≠ []) :
    c.complete.select c.ids = .ok (some c) := by
  have hcontains : ∀ id ∈ c.ids, c.complete.contains id = true := by
    intro id hid
    obtain ⟨s, hs, rfl⟩ := List.mem_map.mp hid
    exact (h.complete.mem_toList_iff.mp (h.mem_toList_iff.mp hs).1).2
  obtain ⟨r, hselect, hpart⟩ := h.complete.select_contained hcontains
  have hlist : c.complete.toList.filter (fun s => c.ids.contains s.id) = c.toList := by
    rw [toList_complete, h.toList_eq_filter]
    apply List.filter_congr
    intro s hs
    rw [Bool.eq_iff_iff, List.contains_iff_mem, h.contains_iff_mem_ids]
  have htoList := hpart.toList
  rw [hlist, present_of_ne_nil hne] at htoList
  obtain ⟨d, rfl, hd⟩ := Option.map_eq_some_iff.mp htoList
  rw [hselect, h.eq_of_toList (hpart.wellFormed d rfl) (whole_of_select hselect) hd]

theorem complete_eq_self {c : SiteCollection α} (h : c.selection = none) : c.complete = c := by
  obtain ⟨whole, selection⟩ := c
  obtain rfl : selection = none := h
  rfl

variable [Scalar α]

theorem index_of_ofSites {origin : Nat} {sites : List (Site α)} {c : SiteCollection α}
    (h : ofSites origin sites = .ok c) :
    SiteSet.index c.whole.sites.toList 0 {} = .ok c.whole.positions := by
  unfold ofSites at h
  cases hindex : SiteSet.index sites 0 {} with
  | error fault =>
    rw [hindex] at h
    contradiction
  | ok positions =>
    rw [hindex] at h
    rw [← Except.ok.inj h]
    exact hindex

theorem Built.index_eq {c : SiteCollection α} (h : c.Built) :
    SiteSet.index c.whole.sites.toList 0 {} = .ok c.whole.positions := by
  induction h with
  | sites h => exact index_of_ofSites h
  | locations h =>
    unfold ofLocations at h
    split at h
    · contradiction
    · exact index_of_ofSites h
  | read h =>
    obtain ⟨complete, hcomplete, hselection⟩ := toCollection_eq_ok_iff.mp h
    have hindex := index_of_ofSites hcomplete
    split at hselection
    · rw [← hselection]
      exact hindex
    · rw [whole_of_select hselection]
      exact hindex
  | keep hc h ih =>
    rw [whole_of_keep h]
    exact ih
  | select hc h ih =>
    rw [whole_of_select h]
    exact ih
  | complete hc ih => exact ih

theorem Built.isFinite {c : SiteCollection α} (h : c.Built) :
    ∀ s ∈ c.whole.sites.toList, s.isFinite = true :=
  SiteSet.isFinite_of_index h.index_eq

theorem Built.isFinite_of_mem {c : SiteCollection α} (h : c.Built) {s : Site α}
    (hs : s ∈ c.toList) : s.isFinite = true :=
  h.isFinite s (h.wellFormed.mem_toList_iff.mp hs).1

theorem Built.ofSites_eq {c : SiteCollection α} (h : c.Built) (origin : Nat) :
    ofSites origin c.whole.sites.toList = .ok (c.complete.withOrigin origin) := by
  rw [ofSites, h.index_eq]
  rfl

theorem Built.toCollection_ofCollection {c : SiteCollection α} (h : c.Built) (origin : Nat) :
    (Wire.SitesForm.ofCollection c).toCollection origin = .ok (c.withOrigin origin) := by
  refine toCollection_eq_ok_iff.mpr ⟨_, h.ofSites_eq origin, ?_⟩
  unfold Wire.SitesForm.ofCollection
  cases hselection : c.selection with
  | none =>
    rw [complete_eq_self hselection]
    rfl
  | some selection =>
    have hwf := h.wellFormed.withOrigin origin
    have hne : c.toList ≠ [] := by
      rw [← List.length_pos_iff, h.wellFormed.length_toList]
      unfold size
      rw [hselection]
      exact List.length_pos_iff.mpr (h.wellFormed.selection selection hselection).ne_nil
    exact hwf.select_ids hne

theorem Built.withOrigin {c : SiteCollection α} (h : c.Built) (origin : Nat) :
    (c.withOrigin origin).Built :=
  .read (h.toCollection_ofCollection origin)

end SiteCollection

end HazardReach
