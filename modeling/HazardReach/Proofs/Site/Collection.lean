import HazardReach.Proofs.Site.Positions
import HazardReach.Proofs.Wire.Codec

/-! Well-formed site collections. A view holds ascending positions of its set, some of them but not
all. Every way to make a collection gives this form, and in it a collection is the part of its set
that `contains` answers for. -/
namespace HazardReach

variable {α : Type}

/-- Positions of a proper view of `size` sites. -/
structure ProperSelection (size : Nat) (selection : List Nat) : Prop where
  ne_nil : selection ≠ []
  sublist : selection.Sublist (List.range size)
  length_lt : selection.length < size

theorem ProperSelection.pairwise_lt {size : Nat} {selection : List Nat}
    (h : ProperSelection size selection) : selection.Pairwise (· < ·) :=
  List.pairwise_lt_range.sublist h.sublist

theorem ProperSelection.lt_size {size : Nat} {selection : List Nat}
    (h : ProperSelection size selection) {i : Nat} (hi : i ∈ selection) : i < size :=
  List.mem_range.mp (h.sublist.subset hi)

theorem filterMap_filter_range {β : Type} (xs : List β) {p : Nat → Bool} {q : β → Bool}
    (h : ∀ i x, xs[i]? = some x → p i = q x) :
    ((List.range xs.length).filter p).filterMap (xs[·]?) = xs.filter q := by
  induction xs generalizing p with
  | nil => rfl
  | cons x xs ih =>
    have hx : p 0 = q x := h 0 x rfl
    have hxs := ih (p := p ∘ Nat.succ) fun i y hy => h (i + 1) y (by simpa using hy)
    rw [List.length_cons, List.range_succ_eq_map, List.filter_cons, List.filter_cons,
      List.filter_map, hx]
    cases q x with
    | true =>
      simp only [if_true]
      rw [List.filterMap_cons, List.filterMap_map, ← hxs]
      rfl
    | false =>
      simp only [Bool.false_eq_true, if_false]
      rw [List.filterMap_map, ← hxs]
      rfl

theorem masked_map {β : Type} (xs : List β) (p : β → Bool) :
    masked xs (xs.map p) = xs.filter p := by
  induction xs with
  | nil => rfl
  | cons x xs ih => rw [List.map_cons, masked_cons, ih, List.filter_cons]

theorem masked_map_zip {β γ : Type} (xs : List β) (ys : List γ) (p : γ → Bool) :
    masked xs (ys.map p) = ((xs.zip ys).filter fun q => p q.2).map (·.1) := by
  unfold masked
  rw [List.zip_map_right, List.filter_map, List.map_map]
  rfl

theorem masked_map_left {β γ : Type} (f : β → γ) (xs : List β) (mask : List Bool) :
    masked (xs.map f) mask = (masked xs mask).map f := by
  unfold masked
  rw [List.zip_map_left, List.filter_map, List.map_map, List.map_map]
  rfl

theorem masked_of_all {β : Type} {xs : List β} {mask : List Bool}
    (hlength : mask.length = xs.length) (h : mask.all id = true) : masked xs mask = xs := by
  have hfilter : (xs.zip mask).filter (·.2) = xs.zip mask := by
    rw [List.filter_eq_self]
    intro p hp
    exact List.all_eq_true.mp h p.2 (List.of_mem_zip hp).2
  unfold masked
  rw [hfilter]
  exact List.map_fst_zip hlength.ge

theorem masked_of_any_eq_false {β : Type} (xs : List β) {mask : List Bool}
    (h : mask.any id = false) : masked xs mask = [] := by
  have hfilter : (xs.zip mask).filter (·.2) = [] := by
    rw [List.filter_eq_nil_iff]
    intro p hp
    exact List.any_eq_false.mp h p.2 (List.of_mem_zip hp).2
  unfold masked
  rw [hfilter]
  rfl

theorem masked_sublist {β : Type} (xs : List β) (mask : List Bool) :
    (masked xs mask).Sublist xs := by
  induction xs generalizing mask with
  | nil => exact List.Sublist.refl _
  | cons x xs ih =>
    cases mask with
    | nil => exact List.nil_sublist _
    | cons b mask =>
      rw [masked_cons]
      cases b with
      | true => exact (ih mask).cons_cons x
      | false => exact (ih mask).cons x

theorem masked_filterMap {β γ : Type} (f : β → Option γ) {xs : List β}
    (h : ∀ x ∈ xs, (f x).isSome) (mask : List Bool) :
    (masked xs mask).filterMap f = masked (xs.filterMap f) mask := by
  induction xs generalizing mask with
  | nil => rfl
  | cons x xs ih =>
    obtain ⟨y, hy⟩ := Option.isSome_iff_exists.mp (h x (by simp))
    have hxs := ih fun x hx => h x (by simp [hx])
    rw [List.filterMap_cons_some hy]
    cases mask with
    | nil => rfl
    | cons b mask =>
      rw [masked_cons, masked_cons, ← hxs]
      cases b with
      | true => exact List.filterMap_cons_some hy
      | false => rfl

theorem masked_ne_nil {β : Type} {xs : List β} {mask : List Bool}
    (hlength : mask.length = xs.length) (h : mask.any id = true) : masked xs mask ≠ [] := by
  induction xs generalizing mask with
  | nil =>
    rw [List.length_eq_zero_iff.mp hlength] at h
    contradiction
  | cons x xs ih =>
    cases mask with
    | nil => contradiction
    | cons b mask =>
      rw [masked_cons]
      cases b with
      | true => simp
      | false => exact ih (by simpa using hlength) (by simpa using h)

theorem length_masked_lt {β : Type} {xs : List β} {mask : List Bool}
    (hlength : mask.length = xs.length) (h : mask.all id = false) :
    (masked xs mask).length < xs.length := by
  induction xs generalizing mask with
  | nil =>
    rw [List.length_eq_zero_iff.mp hlength] at h
    contradiction
  | cons x xs ih =>
    cases mask with
    | nil => contradiction
    | cons b mask =>
      rw [masked_cons]
      cases b with
      | true =>
        have := ih (by simpa using hlength) (by simpa using h)
        simpa using this
      | false =>
        have := (masked_sublist xs mask).length_le
        simp only [Bool.false_eq_true, if_false, List.length_cons]
        omega

namespace SiteCollection

structure WellFormed (c : SiteCollection α) : Prop where
  whole : c.whole.WellFormed
  selection : ∀ selection ∈ c.selection, ProperSelection c.whole.sites.size selection

/-- The collections that can be made: read from sites, from locations or from a wire form, and
narrowed or widened from there. -/
inductive Built [Scalar α] : SiteCollection α → Prop where
  | sites {origin : Nat} {sites : List (Site α)} {c : SiteCollection α}
      (h : ofSites origin sites = .ok c) : Built c
  | locations {origin : Nat} {locations : List (α × α)} {c : SiteCollection α}
      (h : ofLocations origin locations = .ok c) : Built c
  | read {origin : Nat} {form : Wire.SitesForm α} {c : SiteCollection α}
      (h : form.toCollection origin = .ok c) : Built c
  | keep {c d : SiteCollection α} {mask : List Bool} (hc : Built c)
      (h : c.keep mask = .ok (some d)) : Built d
  | select {c d : SiteCollection α} {ids : List SiteId} (hc : Built c)
      (h : c.select ids = .ok (some d)) : Built d
  | complete {c : SiteCollection α} (hc : Built c) : Built c.complete

theorem Built.of_yields [Scalar α] [NumberText α] {origin : Nat} {c : SiteCollection α}
    (h : (Wire.sitesCodec origin).Yields c) : Built c := by
  obtain ⟨form, -, hform⟩ := h.of_refine
  exact .read hform

theorem WellFormed.complete {c : SiteCollection α} (h : c.WellFormed) : c.complete.WellFormed :=
  ⟨h.whole, by simp [SiteCollection.complete]⟩

theorem wellFormed_of_ofSites [Scalar α] {origin : Nat} {sites : List (Site α)}
    {c : SiteCollection α} (h : ofSites origin sites = .ok c) :
    c.WellFormed ∧ c.toList = sites := by
  unfold ofSites at h
  cases hindex : SiteSet.index sites 0 {} with
  | error e =>
    rw [hindex] at h
    contradiction
  | ok positions =>
    rw [hindex] at h
    rw [← Except.ok.inj h]
    have hinverse : SiteSet.Inverse positions ([] ++ sites) :=
      SiteSet.index_inverse SiteSet.Inverse.nil hindex
    exact ⟨⟨by simpa [SiteSet.WellFormed] using hinverse, by simp⟩, by simp [toList]⟩

theorem ofSites_ok [Scalar α] (origin : Nat) {sites : List (Site α)}
    (hfinite : ∀ s ∈ sites, s.isFinite = true) (hnodup : (sites.map (·.id)).Nodup) :
    ∃ positions, ofSites origin sites = .ok ⟨⟨origin, sites.toArray, positions⟩, none⟩ := by
  obtain ⟨positions, -, hindex⟩ := SiteSet.index_ok hfinite hnodup
  exact ⟨positions, by rw [ofSites, hindex]; rfl⟩

theorem toList_eq_filterMap_places (c : SiteCollection α) :
    c.toList = c.places.filterMap (c.whole.sites[·]?) := by
  unfold toList places
  cases c.selection with
  | some selection => rfl
  | none =>
    have hall := filterMap_filter_range c.whole.sites.toList (p := fun _ => true)
      (q := fun _ => true) fun _ _ _ => rfl
    simp only [List.filter_true, Array.getElem?_toList, Array.length_toList] at hall
    exact hall.symm

theorem length_places (c : SiteCollection α) : c.places.length = c.size := by
  unfold places size
  cases c.selection with
  | some selection => rfl
  | none => simp

namespace WellFormed

variable {c : SiteCollection α} (h : c.WellFormed)

include h

theorem places_sublist : c.places.Sublist (List.range c.whole.sites.size) := by
  unfold places
  cases hsel : c.selection with
  | none => exact List.Sublist.refl _
  | some selection => exact (h.selection selection hsel).sublist

theorem places_bounded : ∀ i ∈ c.places, i < c.whole.sites.size := by
  intro i hi
  exact List.mem_range.mp (h.places_sublist.subset hi)

theorem places_eq_filter :
    c.places = (List.range c.whole.sites.size).filter fun i => c.places.contains i := by
  have hascending := List.pairwise_lt_range.sublist h.places_sublist
  apply hascending.eq_of_mem_iff (List.pairwise_lt_range.filter _)
  intro i
  simp only [List.mem_filter, List.mem_range, List.contains_iff_mem]
  exact ⟨fun hi => ⟨h.places_bounded i hi, hi⟩, fun hi => hi.2⟩

theorem isSome_places {i : Nat} (hi : i ∈ c.places) : (c.whole.sites[i]?).isSome := by
  simpa using h.places_bounded i hi

theorem length_toList : c.toList.length = c.size := by
  rw [toList_eq_filterMap_places, ← length_places]
  exact List.filterMap_length_eq_length.mpr fun i hi => h.isSome_places hi

theorem isEmpty_eq_false (hne : c.toList ≠ []) : c.isEmpty = false := by
  rw [isEmpty, ← h.length_toList, beq_eq_false_iff_ne]
  exact mt List.length_eq_zero_iff.mp hne

theorem contains_eq {i : Nat} {s : Site α} (hs : c.whole.sites[i]? = some s) :
    c.contains s.id = c.places.contains i := by
  have hfound : c.whole.positions[s.id]? = some i :=
    (h.whole s.id i).mpr ⟨s, by simpa using hs, rfl⟩
  have hi : i < c.whole.sites.size := (Array.getElem?_eq_some_iff.mp hs).1
  unfold contains places
  rw [hfound]
  cases hsel : c.selection with
  | none => simp [hi]
  | some selection =>
    rw [Bool.eq_iff_iff, List.contains_iff_mem]
    exact bisect_iff_mem (h.selection selection hsel).pairwise_lt

theorem toList_eq_filter :
    c.toList = c.whole.sites.toList.filter fun s => c.contains s.id := by
  rw [toList_eq_filterMap_places, h.places_eq_filter]
  have hfilter := filterMap_filter_range c.whole.sites.toList fun i s hs =>
    (h.contains_eq (by simpa using hs)).symm
  simpa only [Array.getElem?_toList, Array.length_toList] using hfilter

theorem mem_toList_iff {s : Site α} :
    s ∈ c.toList ↔ s ∈ c.whole.sites.toList ∧ c.contains s.id = true := by
  rw [h.toList_eq_filter, List.mem_filter]

theorem eq_of_id {d : SiteCollection α} (hd : d.WellFormed) (hwhole : d.whole = c.whole)
    {s t : Site α} (hs : s ∈ c.toList) (ht : t ∈ d.toList) (hid : s.id = t.id) : s = t := by
  have ht := (hd.mem_toList_iff.mp ht).1
  rw [hwhole] at ht
  exact h.whole.id_inj (h.mem_toList_iff.mp hs).1 ht hid

end WellFormed

def present (sites : List (Site α)) : Option (List (Site α)) :=
  if sites.isEmpty then none else some sites

theorem present_of_ne_nil {sites : List (Site α)} (h : sites ≠ []) :
    present sites = some sites := by
  rw [present, if_neg (by simpa using h)]

theorem present_eq_some_iff {sites found : List (Site α)} :
    present sites = some found ↔ sites ≠ [] ∧ sites = found := by
  unfold present
  cases sites with
  | nil => simp
  | cons s sites => simp

/-- What is left of a collection by a test of its members, nothing if none passes. -/
structure Part (c : SiteCollection α) (p : Site α → Bool) (r : Option (SiteCollection α)) :
    Prop where
  toList : r.map SiteCollection.toList = present (c.toList.filter p)
  wellFormed : ∀ d ∈ r, d.WellFormed

theorem Part.mem_iff {c : SiteCollection α} {p : Site α → Bool} {r : Option (SiteCollection α)}
    (h : c.Part p r) {s : Site α} : (∃ d ∈ r, s ∈ d.toList) ↔ s ∈ c.toList ∧ p s = true := by
  rw [← List.mem_filter]
  have htoList := h.toList
  cases r with
  | none =>
    have hnil : c.toList.filter p = [] := by
      by_contra hne
      rw [present_of_ne_nil hne] at htoList
      contradiction
    simp [hnil]
  | some d =>
    rw [(present_eq_some_iff.mp htoList.symm).2]
    simp

theorem WellFormed.toList_masked {c : SiteCollection α} (h : c.WellFormed) (mask : List Bool) :
    (⟨c.whole, some (masked c.places mask)⟩ : SiteCollection α).toList = masked c.toList mask := by
  rw [toList_eq_filterMap_places c]
  exact masked_filterMap _ (fun i hi => h.isSome_places hi) mask

/-- What a mask leaves: everything, nothing or a view of what is marked. -/
theorem keep_cases {c : SiteCollection α} {mask : List Bool} {r : Option (SiteCollection α)}
    (h : c.keep mask = .ok r) :
    mask.length = c.size ∧ ((mask.all id = true ∧ r = some c) ∨
      (mask.any id = false ∧ r = none) ∨
      (mask.all id = false ∧ mask.any id = true ∧
        r = some ⟨c.whole, some (masked c.places mask)⟩)) := by
  unfold SiteCollection.keep at h
  split at h
  · contradiction
  · rename_i hlength
    refine ⟨not_not.mp hlength, ?_⟩
    split at h
    · rename_i hall
      exact .inl ⟨hall, (Except.ok.inj h).symm⟩
    · rename_i hall
      split at h
      · rename_i hany
        exact .inr (.inl ⟨by simpa using hany, (Except.ok.inj h).symm⟩)
      · rename_i hany
        exact .inr (.inr ⟨by simpa using hall, by simpa using hany, (Except.ok.inj h).symm⟩)

theorem keep_of_length_ne {c : SiteCollection α} {mask : List Bool} (h : mask.length ≠ c.size) :
    c.keep mask = .error (.maskLength mask.length c.size) :=
  if_pos h

theorem keep_ok {c : SiteCollection α} {mask : List Bool} (h : mask.length = c.size) :
    ∃ r, c.keep mask = .ok r := by
  unfold SiteCollection.keep
  rw [if_neg (not_not.mpr h)]
  by_cases hall : mask.all id = true
  · exact ⟨_, if_pos hall⟩
  · rw [if_neg hall]
    by_cases hany : (!mask.any id) = true
    · exact ⟨_, if_pos hany⟩
    · exact ⟨_, if_neg hany⟩

theorem exists_keep {c : SiteCollection α} {mask : List Bool} (hlength : mask.length = c.size)
    (hany : mask.any id = true) : ∃ d, c.keep mask = .ok (some d) := by
  obtain ⟨r, hr⟩ := keep_ok hlength
  rcases (keep_cases hr).2 with ⟨-, rfl⟩ | ⟨hnone, -⟩ | ⟨-, -, rfl⟩
  · exact ⟨_, hr⟩
  · exact absurd (hany.symm.trans hnone) (by simp)
  · exact ⟨_, hr⟩

theorem keep_eq_none {c : SiteCollection α} {mask : List Bool} (hlength : mask.length = c.size)
    (hne : c.isEmpty = false) (hany : mask.any id = false) : c.keep mask = .ok none := by
  obtain ⟨r, hr⟩ := keep_ok hlength
  rcases (keep_cases hr).2 with ⟨hall, -⟩ | ⟨-, rfl⟩ | ⟨-, hsome, -⟩
  · cases mask with
    | nil =>
      rw [isEmpty, ← hlength] at hne
      contradiction
    | cons b mask =>
      rw [List.all_cons, Bool.and_eq_true] at hall
      rw [List.any_cons, hall.1] at hany
      contradiction
  · exact hr
  · exact absurd (hsome.symm.trans hany) (by simp)

theorem whole_of_keep {c d : SiteCollection α} {mask : List Bool}
    (h : c.keep mask = .ok (some d)) : d.whole = c.whole := by
  rcases (keep_cases h).2 with hall | hnone | hview
  · rw [Option.some.inj hall.2]
  · exact absurd hnone.2 (by simp)
  · rw [Option.some.inj hview.2.2]

theorem WellFormed.keep {c d : SiteCollection α} {mask : List Bool} (h : c.WellFormed)
    (hkeep : c.keep mask = .ok (some d)) : d.WellFormed := by
  rcases (keep_cases hkeep).2 with hall | hnone | hview
  · rw [Option.some.inj hall.2]
    exact h
  · exact absurd hnone.2 (by simp)
  · have hlength : mask.length = c.places.length := by
      rw [length_places]
      exact (keep_cases hkeep).1
    have hsub := masked_sublist c.places mask
    rw [Option.some.inj hview.2.2]
    refine ⟨h.whole, ?_⟩
    intro selection hselection
    rw [← Option.some.inj hselection]
    refine ⟨masked_ne_nil hlength hview.2.1, hsub.trans h.places_sublist, ?_⟩
    have hle := h.places_sublist.length_le
    rw [List.length_range] at hle
    exact lt_of_lt_of_le (length_masked_lt hlength hview.1) hle

theorem WellFormed.toList_of_keep {c d : SiteCollection α} {mask : List Bool} (h : c.WellFormed)
    (hkeep : c.keep mask = .ok (some d)) : d.toList = masked c.toList mask := by
  obtain ⟨hlength, ⟨hall, hd⟩ | ⟨-, hd⟩ | ⟨-, -, hd⟩⟩ := keep_cases hkeep
  · rw [← h.length_toList] at hlength
    rw [Option.some.inj hd, masked_of_all hlength hall]
  · contradiction
  · rw [Option.some.inj hd]
    exact h.toList_masked mask

theorem WellFormed.part_of_isEmpty {c : SiteCollection α} (h : c.WellFormed)
    (hempty : c.isEmpty = true) (p : Site α → Bool) : c.Part p none := by
  rw [isEmpty, ← h.length_toList, beq_iff_eq, List.length_eq_zero_iff] at hempty
  refine ⟨?_, by simp⟩
  rw [hempty]
  rfl

/-- The collection of the set of `c` that has the given members, nothing for no members. -/
structure Narrowed (c : SiteCollection α) (members : List (Site α))
    (r : Option (SiteCollection α)) : Prop where
  toList : r.map SiteCollection.toList = present members
  wellFormed : ∀ d ∈ r, d.WellFormed
  whole : ∀ d ∈ r, d.whole = c.whole

theorem WellFormed.keep_narrowed {c : SiteCollection α} (h : c.WellFormed)
    (hne : c.isEmpty = false) {mask : List Bool} (hlength : mask.length = c.size) :
    ∃ r, c.keep mask = .ok r ∧ c.Narrowed (masked c.toList mask) r := by
  cases hany : mask.any id with
  | true =>
    obtain ⟨d, hkeep⟩ := exists_keep hlength hany
    have hpicked : masked c.toList mask ≠ [] :=
      masked_ne_nil (hlength.trans h.length_toList.symm) hany
    refine ⟨some d, hkeep, ?_, ?_, ?_⟩
    · rw [Option.map_some, h.toList_of_keep hkeep, present_of_ne_nil hpicked]
    · simpa using h.keep hkeep
    · simpa using whole_of_keep hkeep
  | false =>
    refine ⟨none, keep_eq_none hlength hne hany, ?_, by simp, by simp⟩
    rw [masked_of_any_eq_false _ hany]
    rfl

theorem WellFormed.keep_filter {c : SiteCollection α} (h : c.WellFormed) (hne : c.isEmpty = false)
    (p : Site α → Bool) : ∃ r, c.keep (c.toList.map p) = .ok r ∧ c.Part p r := by
  have hlength : (c.toList.map p).length = c.size := by
    rw [List.length_map, h.length_toList]
  obtain ⟨r, hkeep, hnarrowed⟩ := h.keep_narrowed hne hlength
  refine ⟨r, hkeep, ?_, hnarrowed.wellFormed⟩
  rw [hnarrowed.toList, masked_map]

theorem WellFormed.part_of_keep {c : SiteCollection α} (h : c.WellFormed)
    (hne : c.isEmpty = false) {p : Site α → Bool} {r : Option (SiteCollection α)}
    (hkeep : c.keep (c.toList.map p) = .ok r) : c.Part p r := by
  obtain ⟨found, hfound, hpart⟩ := h.keep_filter hne p
  rw [Except.ok.inj (hkeep.symm.trans hfound)]
  exact hpart

theorem WellFormed.search_filter {c : SiteCollection α} (h : c.WellFormed) {ε : Type}
    (tag : SitesFault → ε) (p : Site α → Bool) :
    ∃ r, (if c.isEmpty then (.ok none : Except ε _)
      else (c.keep (c.toList.map p)).mapError tag) = .ok r ∧ c.Part p r := by
  by_cases hempty : c.isEmpty = true
  · rw [if_pos hempty]
    exact ⟨none, rfl, h.part_of_isEmpty hempty p⟩
  · obtain ⟨r, hr, hpart⟩ := h.keep_filter (by simpa using hempty) p
    rw [if_neg hempty, hr]
    exact ⟨r, rfl, hpart⟩

theorem WellFormed.mem_resolved {c : SiteCollection α} (h : c.WellFormed) (ids : List SiteId)
    {i : Nat} {s : Site α} (hs : c.whole.sites[i]? = some s) :
    i ∈ ids.filterMap (c.whole.positions[·]?) ↔ s.id ∈ ids := by
  have hfound : ∀ id, c.whole.positions[id]? = some i ↔ id = s.id := by
    intro id
    rw [h.whole id i]
    simp only [Array.getElem?_toList, hs, Option.some.injEq, exists_eq_left', eq_comm]
  simp only [List.mem_filterMap, hfound, exists_eq_right]

theorem WellFormed.ascending_resolved {c : SiteCollection α} (h : c.WellFormed)
    (ids : List SiteId) :
    ascending id (ids.filterMap (c.whole.positions[·]?)) =
      (List.range c.whole.sites.size).filter
        (ids.filterMap (c.whole.positions[·]?)).contains := by
  have hascending : (ascending id (ids.filterMap (c.whole.positions[·]?))).Pairwise (· < ·) :=
    pairwise_ascending (fun _ _ => id) _
  apply hascending.eq_of_mem_iff (List.pairwise_lt_range.filter _)
  intro i
  rw [mem_ascending, List.mem_filter, List.contains_iff_mem, List.mem_range]
  refine (and_iff_right_of_imp ?_).symm
  intro hi
  obtain ⟨id, -, hid⟩ := List.mem_filterMap.mp hi
  obtain ⟨s, hs, -⟩ := (h.whole id i).mp hid
  exact (List.getElem?_eq_some_iff.mp hs).1

theorem WellFormed.filterMap_resolved {c : SiteCollection α} (h : c.WellFormed)
    (ids : List SiteId) :
    (ascending id (ids.filterMap (c.whole.positions[·]?))).filterMap (c.whole.sites[·]?) =
      c.whole.sites.toList.filter fun s => ids.contains s.id := by
  have hpart := filterMap_filter_range c.whole.sites.toList
    (p := (ids.filterMap (c.whole.positions[·]?)).contains) (q := fun s => ids.contains s.id)
    fun i s hs => by
      rw [Bool.eq_iff_iff, List.contains_iff_mem, List.contains_iff_mem]
      exact h.mem_resolved ids (by simpa using hs)
  rw [h.ascending_resolved]
  simpa only [Array.getElem?_toList, Array.length_toList] using hpart

private theorem exists_view {set : SiteSet α} (h : set.WellFormed) {places : List Nat}
    (hne : places ≠ []) (hsub : places.Sublist (List.range set.sites.size)) :
    ∃ d : SiteCollection α, d.WellFormed ∧ d.toList = places.filterMap (set.sites[·]?) ∧
      d.toList ≠ [] ∧
      (if places.length = set.sites.size then some ⟨set, none⟩ else some ⟨set, some places⟩) =
        some d := by
  have hlist : places.filterMap (set.sites[·]?) ≠ [] := by
    obtain ⟨i, hi⟩ := List.exists_mem_of_ne_nil _ hne
    have hsome : (set.sites[i]?).isSome := by
      simpa using List.mem_range.mp (hsub.subset hi)
    obtain ⟨s, hs⟩ := Option.isSome_iff_exists.mp hsome
    exact List.ne_nil_of_mem (List.mem_filterMap.mpr ⟨i, hi, hs⟩)
  by_cases hlength : places.length = set.sites.size
  · have hall : places = List.range set.sites.size := by
      apply hsub.eq_of_length
      rw [hlength, List.length_range]
    have hwhole : (⟨set, none⟩ : SiteCollection α).toList = places.filterMap (set.sites[·]?) := by
      rw [hall]
      exact toList_eq_filterMap_places _
    exact ⟨⟨set, none⟩, ⟨h, by simp⟩, hwhole, hwhole ▸ hlist, if_pos hlength⟩
  · have hle := hsub.length_le
    rw [List.length_range] at hle
    refine ⟨⟨set, some places⟩, ⟨h, ?_⟩, rfl, hlist, if_neg hlength⟩
    intro selection hselection
    rw [← Option.some.inj hselection]
    exact ⟨hne, hsub, lt_of_le_of_ne hle hlength⟩

theorem WellFormed.select_spec {c : SiteCollection α} (h : c.WellFormed) {ids : List SiteId}
    {r : Option (SiteCollection α)} (hselect : c.select ids = .ok r) :
    r.map toList = present (c.whole.sites.toList.filter fun s => ids.contains s.id) ∧
      ∀ d ∈ r, d.WellFormed := by
  unfold select at hselect
  cases hresolve : c.whole.resolve ids with
  | error e =>
    rw [hresolve] at hselect
    contradiction
  | ok positions =>
    rw [hresolve] at hselect
    replace hselect := Except.ok.inj hselect
    obtain rfl := (SiteSet.resolve_eq_ok_iff.mp hresolve).2
    rw [← h.filterMap_resolved]
    by_cases hnone : ids.filterMap (c.whole.positions[·]?) = []
    · simp only [hnone, List.isEmpty_nil, if_true] at hselect
      simp [← hselect, hnone, present, ascending, unrepeated]
    · obtain ⟨i, hi⟩ := List.exists_mem_of_ne_nil _ hnone
      have hne := List.ne_nil_of_mem ((mem_ascending id).mpr hi)
      have hsub : (ascending id (ids.filterMap (c.whole.positions[·]?))).Sublist
          (List.range c.whole.sites.size) := by
        rw [h.ascending_resolved]
        exact List.filter_sublist
      obtain ⟨d, hd, hlist, hpresent, hview⟩ := exists_view h.whole hne hsub
      beta_reduce at hselect
      rw [List.isEmpty_eq_false_iff.mpr hnone] at hselect
      obtain rfl : r = some d := hselect.symm.trans hview
      rw [← hlist, present_of_ne_nil hpresent]
      exact ⟨rfl, by simpa using hd⟩

theorem select_ok {c : SiteCollection α} {ids : List SiteId}
    (hids : ∀ id ∈ ids, id ∈ c.whole.positions) : ∃ r, c.select ids = .ok r := by
  have hresolve := SiteSet.resolve_eq_ok_iff.mpr ⟨hids, rfl⟩
  unfold select
  rw [hresolve]
  exact ⟨_, rfl⟩

theorem whole_of_select {c d : SiteCollection α} {ids : List SiteId}
    (h : c.select ids = .ok (some d)) : d.whole = c.whole := by
  unfold select at h
  cases hresolve : c.whole.resolve ids with
  | error e =>
    rw [hresolve] at h
    contradiction
  | ok positions =>
    rw [hresolve] at h
    replace h := Except.ok.inj h
    dsimp only at h
    split at h
    · contradiction
    · split at h
      · rw [← Option.some.inj h, whole_complete]
      · rw [← Option.some.inj h]

theorem mem_positions_of_contains {c : SiteCollection α} {id : SiteId}
    (h : c.contains id = true) : id ∈ c.whole.positions := by
  rw [Std.HashMap.mem_iff_isSome_getElem?]
  unfold contains at h
  cases hposition : c.whole.positions[id]? with
  | some i => rfl
  | none =>
    rw [hposition] at h
    contradiction

theorem WellFormed.select_contained {c : SiteCollection α} (h : c.WellFormed) {ids : List SiteId}
    (hids : ∀ id ∈ ids, c.contains id = true) :
    ∃ r, c.select ids = .ok r ∧ c.Part (fun s => ids.contains s.id) r := by
  obtain ⟨r, hr⟩ := select_ok fun id hid => mem_positions_of_contains (hids id hid)
  refine ⟨r, hr, ?_, (h.select_spec hr).2⟩
  -- The selection is made from the whole set, but the given identifiers are all of members.
  rw [(h.select_spec hr).1, h.toList_eq_filter, List.filter_filter]
  congr 2
  funext s
  rw [Bool.eq_iff_iff, Bool.and_eq_true, List.contains_iff_mem]
  exact (and_iff_left_of_imp (hids s.id)).symm

theorem toCollection_of_ofSites [Scalar α] {origin : Nat} {form : Wire.SitesForm α}
    {complete : SiteCollection α} (h : ofSites origin form.sites = .ok complete) :
    form.toCollection origin =
      match form.selection with
      | none => .ok complete
      | some ids =>
        match complete.select ids with
        | .error fault => .error (.badSites fault)
        | .ok none => .error .emptySelection
        | .ok (some c) => .ok c := by
  unfold Wire.SitesForm.toCollection
  rw [h]
  cases form.selection with
  | none => rfl
  | some ids =>
    change ((complete.select ids).mapError WireFault.badSites >>= _) = _
    dsimp only
    cases complete.select ids with
    | error fault => rfl
    | ok found => cases found <;> rfl

theorem toCollection_eq_ok_iff [Scalar α] {origin : Nat} {form : Wire.SitesForm α}
    {c : SiteCollection α} :
    form.toCollection origin = .ok c ↔ ∃ complete, ofSites origin form.sites = .ok complete ∧
      match form.selection with
      | none => complete = c
      | some ids => complete.select ids = .ok (some c) := by
  cases hsites : ofSites origin form.sites with
  | error fault =>
    have herror : form.toCollection origin = .error (.badSites fault) := by
      unfold Wire.SitesForm.toCollection
      rw [hsites]
      rfl
    simp [herror]
  | ok complete =>
    rw [toCollection_of_ofSites hsites]
    simp only [Except.ok.injEq, exists_eq_left']
    cases form.selection with
    | none => simp
    | some ids =>
      dsimp only
      cases complete.select ids with
      | error fault => simp
      | ok found => cases found <;> simp

theorem wellFormed_of_toCollection [Scalar α] {origin : Nat} {form : Wire.SitesForm α}
    {c : SiteCollection α} (h : form.toCollection origin = .ok c) : c.WellFormed := by
  obtain ⟨complete, hsites, hselection⟩ := toCollection_eq_ok_iff.mp h
  have hcomplete := (wellFormed_of_ofSites hsites).1
  split at hselection
  · rw [← hselection]
    exact hcomplete
  · exact (hcomplete.select_spec hselection).2 c rfl

/-- Every way to make a collection keeps it well formed. -/
theorem Built.wellFormed [Scalar α] {c : SiteCollection α} (h : Built c) : c.WellFormed := by
  induction h with
  | sites h => exact (wellFormed_of_ofSites h).1
  | locations h =>
    unfold ofLocations at h
    split at h
    · contradiction
    · exact (wellFormed_of_ofSites h).1
  | read h => exact wellFormed_of_toCollection h
  | keep hc h ih => exact ih.keep h
  | select hc h ih => exact (ih.select_spec h).2 _ rfl
  | complete hc ih => exact ih.complete

theorem Built.exists_view [Scalar α] {c : SiteCollection α} (h : c.Built) {p : Site α → Bool}
    (hne : c.toList.filter p ≠ []) :
    ∃ d : SiteCollection α, d.Built ∧ d.whole = c.whole ∧ d.toList = c.toList.filter p := by
  have hlist : c.toList ≠ [] := by
    intro hnil
    rw [hnil] at hne
    exact hne rfl
  obtain ⟨r, hkeep, hpart⟩ :=
    h.wellFormed.keep_filter (h.wellFormed.isEmpty_eq_false hlist) p
  have htoList := hpart.toList
  rw [present_of_ne_nil hne, Option.map_eq_some_iff] at htoList
  obtain ⟨d, rfl, htoList⟩ := htoList
  exact ⟨d, .keep h hkeep, whole_of_keep hkeep, htoList⟩

theorem exists_part [Scalar α] (members : List (Site α)) (p : Site α → Bool)
    (hfinite : ∀ s ∈ members, s.isFinite = true) (hnodup : (members.map (·.id)).Nodup)
    (hne : members.filter p ≠ []) :
    ∃ all part : SiteCollection α, all.Built ∧ part.Built ∧ all.whole = part.whole ∧
      all.toList = members ∧ part.toList = members.filter p := by
  obtain ⟨positions, hall⟩ := ofSites_ok 0 hfinite hnodup
  have hlist := (wellFormed_of_ofSites hall).2
  rw [← hlist] at hne
  obtain ⟨part, hpart, hwhole, htoList⟩ := Built.exists_view (.sites hall) hne
  rw [hlist] at htoList
  exact ⟨_, part, .sites hall, hpart, hwhole.symm, hlist, htoList⟩

end SiteCollection

end HazardReach
