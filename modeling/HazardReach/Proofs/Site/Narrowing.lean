import HazardReach.Proofs.Site.Membership

/-! Collections narrowed twice, and in two ways. Of one set there is one collection with given
members, so that a view of a view is told by the members that both masks leave, and a mask by the
identifiers that it picks. -/
namespace HazardReach

variable {α : Type}

/-- The outer mask with its true entries replaced, in order, by the entries of the inner one. -/
def composed : (outer inner : List Bool) → List Bool
  | [], _ => []
  | false :: outer, inner => false :: composed outer inner
  | true :: outer, [] => false :: composed outer []
  | true :: outer, b :: inner => b :: composed outer inner

theorem length_composed (outer inner : List Bool) :
    (composed outer inner).length = outer.length := by
  fun_induction composed outer inner with
  | case1 inner => rfl
  | case2 inner outer ih => rw [List.length_cons, ih, List.length_cons]
  | case3 outer ih => rw [List.length_cons, ih, List.length_cons]
  | case4 outer b inner ih => rw [List.length_cons, ih, List.length_cons]

@[simp] theorem masked_nil_right {β : Type} (xs : List β) : masked xs [] = [] := by
  cases xs <;> rfl

theorem masked_composed {β : Type} (xs : List β) (outer inner : List Bool) :
    masked xs (composed outer inner) = masked (masked xs outer) inner := by
  induction xs generalizing outer inner with
  | nil => rfl
  | cons x xs ih =>
    cases outer with
    | nil => rfl
    | cons b outer =>
      cases b with
      | false =>
        rw [composed, masked_cons, masked_cons]
        exact ih outer inner
      | true =>
        cases inner with
        | nil =>
          rw [composed, masked_cons, if_neg (by simp), ih, masked_nil_right, masked_nil_right]
        | cons c inner => simp only [composed, masked_cons, if_true, ih]

theorem filter_eq_of_sublist {β : Type} {xs ys : List β} (hsub : xs.Sublist ys) (hys : ys.Nodup)
    {p : β → Bool} (h : ∀ y ∈ ys, p y = true ↔ y ∈ xs) : ys.filter p = xs := by
  induction hsub with
  | slnil => rfl
  | @cons xs ys y hsub ih =>
    rw [List.nodup_cons] at hys
    rw [List.forall_mem_cons] at h
    have hy : ¬p y = true := fun hp => hys.1 (hsub.subset (h.1.mp hp))
    rw [List.filter_cons_of_neg hy, ih hys.2 h.2]
  | @cons_cons xs ys y hsub ih =>
    rw [List.nodup_cons] at hys
    rw [List.forall_mem_cons] at h
    rw [List.filter_cons_of_pos (h.1.mpr List.mem_cons_self)]
    rw [ih hys.2]
    intro z hz
    rw [h.2 z hz, List.mem_cons]
    refine or_iff_right ?_
    rintro rfl
    exact hys.1 hz

namespace SiteCollection

theorem Narrowed.unique {c d : SiteCollection α} {members : List (Site α)}
    {r s : Option (SiteCollection α)} (hr : c.Narrowed members r) (hs : d.Narrowed members s)
    (hwhole : d.whole = c.whole) : r = s := by
  have hlists := hr.toList.trans hs.toList.symm
  cases r with
  | none =>
    cases s with
    | none => rfl
    | some found => contradiction
  | some found =>
    cases s with
    | none => contradiction
    | some found' =>
      have hfound := (hr.whole found rfl).trans (hwhole.symm.trans (hs.whole found' rfl).symm)
      rw [(hs.wellFormed found' rfl).eq_of_toList (hr.wellFormed found rfl) hfound
        (Option.some.inj hlists)]

namespace WellFormed

variable {c : SiteCollection α} (h : c.WellFormed)

include h

theorem nodup_toList : c.toList.Nodup := .of_map _ h.nodup_ids

theorem isEmpty_of_keep (hne : c.isEmpty = false) {mask : List Bool} {d : SiteCollection α}
    (hkeep : c.keep mask = .ok (some d)) : d.isEmpty = false := by
  obtain ⟨hlength, ⟨-, hd⟩ | ⟨-, hd⟩ | ⟨-, hany, hd⟩⟩ := keep_cases hkeep
  · rw [Option.some.inj hd]
    exact hne
  · contradiction
  · have hlist := h.toList_of_keep hkeep
    apply (h.keep hkeep).isEmpty_eq_false
    rw [hlist]
    exact masked_ne_nil (hlength.trans h.length_toList.symm) hany

theorem select_narrowed {ids : List SiteId} (hids : ∀ id ∈ ids, id ∈ c.whole.positions) :
    ∃ r, c.select ids = .ok r ∧
      c.Narrowed (c.whole.sites.toList.filter fun s => ids.contains s.id) r := by
  obtain ⟨r, hselect⟩ := select_ok hids
  obtain ⟨htoList, hwellFormed⟩ := h.select_spec hselect
  refine ⟨r, hselect, htoList, hwellFormed, ?_⟩
  rintro d hd
  rw [Option.mem_def.mp hd] at hselect
  exact whole_of_select hselect

theorem filter_eq_masked {mask : List Bool} {ids : List SiteId}
    (hids : ∀ id, id ∈ ids ↔ id ∈ masked c.ids mask) :
    (c.whole.sites.toList.filter fun s => ids.contains s.id) = masked c.toList mask := by
  have hpicked := masked_sublist c.toList mask
  have hsub : c.toList.Sublist c.whole.sites.toList := by
    rw [h.toList_eq_filter]
    exact List.filter_sublist
  apply filter_eq_of_sublist (hpicked.trans hsub) h.complete.nodup_toList
  intro s hs
  rw [List.contains_iff_mem, hids, SiteCollection.ids, masked_map_left, List.mem_map]
  constructor
  · rintro ⟨t, ht, hid⟩
    rwa [← h.eq_of_id h.complete rfl (hpicked.subset ht) hs hid]
  · intro hs
    exact ⟨s, hs, rfl⟩

end WellFormed

/-- A mask after a mask leaves what the composed mask leaves, and a mask leaves what the identifiers
that it picks select, in whatever order and however often they are given. -/
theorem Built.keep_composed [Scalar α] {c : SiteCollection α} (h : c.Built)
    (hne : c.isEmpty = false) :
    (∀ outer inner v, c.keep outer = .ok (some v) → inner.length = v.size →
      ∃ r, v.keep inner = .ok r ∧ c.keep (composed outer inner) = .ok r ∧
        r.map toList = present (masked c.toList (composed outer inner)) ∧
        ∀ d ∈ r, d.whole = c.whole) ∧
    ∀ mask, mask.length = c.size → ∀ ids : List SiteId,
      (∀ id, id ∈ ids ↔ id ∈ masked c.ids mask) →
        ∃ r, c.keep mask = .ok r ∧ c.select ids = .ok r := by
  have hwf := h.wellFormed
  constructor
  · intro outer inner v hview hlength
    have hwhole := whole_of_keep hview
    have hlist := hwf.toList_of_keep hview
    have hcomposed : (composed outer inner).length = c.size :=
      (length_composed outer inner).trans (keep_cases hview).1
    have hviewed : v.isEmpty = false := hwf.isEmpty_of_keep hne hview
    obtain ⟨r, hr, hnarrowed⟩ := (hwf.keep hview).keep_narrowed hviewed hlength
    obtain ⟨s, hs, hnarrowed'⟩ := hwf.keep_narrowed hne hcomposed
    rw [hlist, ← masked_composed] at hnarrowed
    obtain rfl := hnarrowed'.unique hnarrowed hwhole
    exact ⟨s, hr, hs, hnarrowed'.toList, hnarrowed'.whole⟩
  · intro mask hlength ids hids
    have hknown : ∀ id ∈ ids, id ∈ c.whole.positions := by
      intro id hid
      have hmem := (masked_sublist c.ids mask).subset ((hids id).mp hid)
      exact mem_positions_of_contains ((hwf.contains_iff_mem_ids id).mpr hmem)
    obtain ⟨r, hr, hnarrowed⟩ := hwf.keep_narrowed hne hlength
    obtain ⟨s, hs, hnarrowed'⟩ := hwf.select_narrowed hknown
    rw [hwf.filter_eq_masked hids] at hnarrowed'
    obtain rfl := hnarrowed.unique hnarrowed' rfl
    exact ⟨r, hr, hs⟩

theorem keep_composed_of_view :
    ∃ (all c v : SiteCollection ℚ) (r s : Option (SiteCollection ℚ)),
      ofSites 0 [⟨⟨7⟩, 0, 0, 0⟩, ⟨⟨3⟩, 1, 0, 0⟩, ⟨⟨5⟩, 10, 0, 0⟩, ⟨⟨2⟩, 11, 0, 0⟩] = .ok all ∧
      all.keep [true, false, true, true] = .ok (some c) ∧
      c.isEmpty = false ∧
      c.keep [true, true, false] = .ok (some v) ∧
      v.keep [false, true] = .ok r ∧ c.keep [false, true, false] = .ok r ∧
      r.map toList = some [⟨⟨5⟩, 10, 0, 0⟩] ∧
      c.keep [true, false, true] = .ok s ∧ c.select [⟨2⟩, ⟨7⟩, ⟨2⟩] = .ok s := by
  obtain ⟨positions, hall⟩ := @ofSites_ok ℚ _ 0
    [⟨⟨7⟩, 0, 0, 0⟩, ⟨⟨3⟩, 1, 0, 0⟩, ⟨⟨5⟩, 10, 0, 0⟩, ⟨⟨2⟩, 11, 0, 0⟩] (fun _ _ => rfl) (by decide)
  have hview := Built.keep (.sites hall)
    (show keep _ [true, false, true, true] = .ok (some ⟨_, some [0, 2, 3]⟩) from rfl)
  obtain ⟨hmasks, hids⟩ := Built.keep_composed hview rfl
  obtain ⟨r, hinner, houter, hmembers, -⟩ :=
    hmasks [true, true, false] [false, true] ⟨_, some [0, 2]⟩ rfl rfl
  obtain ⟨s, hkeep, hselect⟩ := hids [true, false, true] rfl [⟨2⟩, ⟨7⟩, ⟨2⟩] fun id => by
    change id ∈ [_, _, _] ↔ id ∈ [_, _]
    simp only [List.mem_cons, List.not_mem_nil, or_false]
    tauto
  exact ⟨_, _, _, r, s, hall, rfl, rfl, rfl, hinner, houter, hmembers, hkeep, hselect⟩

end SiteCollection

end HazardReach
