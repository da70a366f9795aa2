import HazardReach.Proofs.Exact
import HazardReach.Proofs.Site.Collection
import Mathlib.Data.Rat.Floor

/-! The form that every collection has, however it was made, and what it makes of identifiers. The
identifiers of a set are distinct and lead to their own places; a view is part of its set and not
all of it. So a collection contains the identifiers that it lists, once each and in the order of
its set, and finds the site of each. -/
namespace HazardReach

variable {α : Type}

theorem SiteSet.Inverse.nodup_ids {positions : Std.HashMap SiteId Nat} {sites : List (Site α)}
    (h : Inverse positions sites) : (sites.map (·.id)).Nodup := by
  rw [List.nodup_iff_pairwise_ne, List.pairwise_iff_getElem]
  intro i j hi hj hij heq
  have hfound := (h.getElem?_ids _ i).mpr (List.getElem?_eq_getElem hi)
  have hfound' := (h.getElem?_ids _ j).mpr (List.getElem?_eq_getElem hj)
  rw [heq, hfound'] at hfound
  exact hij.ne' (Option.some.inj hfound)

namespace SiteCollection

theorem toList_complete (c : SiteCollection α) : c.complete.toList = c.whole.sites.toList := rfl

theorem size_complete (c : SiteCollection α) : c.complete.size = c.whole.sites.size := rfl

namespace WellFormed

variable {c : SiteCollection α} (h : c.WellFormed)

include h

theorem isComplete_iff : c.isComplete = true ↔ c.size = c.complete.size := by
  rw [size_complete]
  unfold isComplete size
  cases hsel : c.selection with
  | none => simp
  | some selection => simp [(h.selection selection hsel).length_lt.ne]

theorem contains_iff_mem_ids (id : SiteId) : c.contains id = true ↔ id ∈ c.ids := by
  unfold ids
  rw [List.mem_map]
  apply Iff.intro
  · intro hcontains
    obtain ⟨i, hi⟩ := Option.isSome_iff_exists.mp
      (Std.HashMap.mem_iff_isSome_getElem?.mp (mem_positions_of_contains hcontains))
    obtain ⟨s, hs, rfl⟩ := (h.whole id i).mp hi
    exact ⟨s, h.mem_toList_iff.mpr ⟨List.mem_of_getElem? hs, hcontains⟩, rfl⟩
  · rintro ⟨s, hs, rfl⟩
    exact (h.mem_toList_iff.mp hs).2

theorem get?_eq_some_iff (id : SiteId) (s : Site α) :
    c.get? id = some s ↔ s ∈ c.toList ∧ s.id = id := by
  unfold get?
  rw [Option.ite_none_right_eq_some, Option.bind_eq_some_iff]
  apply Iff.intro
  · rintro ⟨hcontains, i, hi, hs⟩
    obtain ⟨t, ht, hid⟩ := (h.whole id i).mp hi
    rw [Array.getElem?_toList, hs] at ht
    rw [← Option.some.inj ht] at hid
    rw [← hid] at hcontains
    have hmem : s ∈ c.whole.sites.toList := by simpa using Array.mem_of_getElem? hs
    exact ⟨h.mem_toList_iff.mpr ⟨hmem, hcontains⟩, hid⟩
  · rintro ⟨hs, rfl⟩
    obtain ⟨hmem, hcontains⟩ := h.mem_toList_iff.mp hs
    obtain ⟨i, hi⟩ := List.mem_iff_getElem?.mp hmem
    exact ⟨hcontains, i, (h.whole s.id i).mpr ⟨s, hi, rfl⟩, by simpa using hi⟩

theorem ids_eq_filter : c.ids = c.complete.ids.filter c.contains := by
  unfold ids
  rw [h.toList_eq_filter, toList_complete, List.filter_map]
  rfl

theorem nodup_ids : c.ids.Nodup := by
  rw [h.ids_eq_filter]
  exact h.whole.nodup_ids.filter _

theorem eq_of_toList {d : SiteCollection α} (hd : d.WellFormed) (hwhole : d.whole = c.whole)
    (hlist : d.toList = c.toList) : d = c := by
  have hcontains (id : SiteId) : d.contains id = c.contains id := by
    rw [Bool.eq_iff_iff, hd.contains_iff_mem_ids, h.contains_iff_mem_ids]
    unfold ids
    rw [hlist]
  have hplaces : d.places = c.places := by
    rw [hd.places_eq_filter, h.places_eq_filter, hwhole]
    apply List.filter_congr
    intro i hi
    obtain ⟨s, hs⟩ : ∃ s, c.whole.sites[i]? = some s :=
      ⟨_, Array.getElem?_eq_getElem (List.mem_range.mp hi)⟩
    rw [← h.contains_eq hs, ← hcontains]
    rw [← hwhole] at hs
    exact (hd.contains_eq hs).symm
  have hsize := congrArg List.length hplaces
  rw [length_places, length_places] at hsize
  have hcomplete : d.isComplete = c.isComplete := by
    rw [Bool.eq_iff_iff, hd.isComplete_iff, h.isComplete_iff, hsize, size_complete, size_complete,
      hwhole]
  obtain ⟨whole, selection⟩ := c
  obtain ⟨whole', selection'⟩ := d
  obtain rfl : whole' = whole := hwhole
  cases selection with
  | none =>
    cases selection' with
    | none => rfl
    | some places' => contradiction
  | some places =>
    cases selection' with
    | none => contradiction
    | some places' =>
      obtain rfl : places' = places := hplaces
      rfl

end WellFormed

/-- The identifiers of a set are distinct and lead to their own places. A collection is its set or a
part of it, which is not empty and not the whole; narrowing it leads to the same set. It contains
the identifiers that it lists, finds the site of each, and lists them once in the order of the
set. -/
theorem Built.canonical [Scalar α] {c : SiteCollection α} (h : c.Built) :
    (c.complete.ids.Nodup ∧
      ∀ (id : SiteId) (i : Nat),
        c.whole.positions[id]? = some i ↔ c.complete.ids[i]? = some id) ∧
    (c.selection = none ∨ ∃ selection, c.selection = some selection ∧ selection ≠ [] ∧
      selection.Pairwise (· < ·) ∧ (∀ i ∈ selection, i < c.whole.sites.size) ∧
        selection.length < c.whole.sites.size) ∧
    (c.isComplete = true ↔ c.size = c.complete.size) ∧
    ((∀ mask d, c.keep mask = .ok (some d) → d.whole = c.whole) ∧
      ∀ ids d, c.select ids = .ok (some d) → d.whole = c.whole) ∧
    (∀ id, (c.contains id = true ↔ id ∈ c.ids) ∧
      ∀ s, c.get? id = some s ↔ s ∈ c.toList ∧ s.id = id) ∧
    c.ids.Nodup ∧ c.ids.Sublist c.complete.ids := by
  have hwf := h.wellFormed
  refine ⟨⟨hwf.complete.nodup_ids, hwf.whole.getElem?_ids⟩, ?_, hwf.isComplete_iff,
    ⟨fun _ _ => whole_of_keep, fun _ _ => whole_of_select⟩,
    fun id => ⟨hwf.contains_iff_mem_ids id, hwf.get?_eq_some_iff id⟩, hwf.nodup_ids, ?_⟩
  · cases hsel : c.selection with
    | none => exact .inl rfl
    | some selection =>
      have hproper := hwf.selection selection hsel
      exact .inr ⟨selection, rfl, hproper.ne_nil, hproper.pairwise_lt,
        fun i hi => hproper.lt_size hi, hproper.length_lt⟩
  · rw [hwf.ids_eq_filter]
    exact List.filter_sublist

theorem canonical_view_of_view :
    ∃ all front middle : SiteCollection ℚ,
      ofSites 0 [⟨⟨7⟩, 0, 0, 0⟩, ⟨⟨3⟩, 1, 0, 0⟩, ⟨⟨5⟩, 10, 0, 0⟩] = .ok all ∧
      all.keep [true, true, false] = .ok (some front) ∧
      front.keep [false, true] = .ok (some middle) ∧ middle.ids = [⟨3⟩] ∧
      middle.isComplete = false ∧ middle.contains ⟨3⟩ = true ∧ middle.contains ⟨7⟩ = false ∧
      middle.get? ⟨3⟩ = some ⟨⟨3⟩, 1, 0, 0⟩ := by
  obtain ⟨positions, hall⟩ := @ofSites_ok ℚ _ 0
    [⟨⟨7⟩, 0, 0, 0⟩, ⟨⟨3⟩, 1, 0, 0⟩, ⟨⟨5⟩, 10, 0, 0⟩] (fun _ _ => rfl) (by decide)
  have hfront := Built.keep (.sites hall)
    (show keep _ [true, true, false] = .ok (some ⟨_, some [0, 1]⟩) from rfl)
  have hmiddle := Built.keep hfront (show keep _ [false, true] = .ok (some ⟨_, some [1]⟩) from rfl)
  obtain ⟨-, -, hcomplete, -, hfound, -⟩ := Built.canonical hmiddle
  refine ⟨_, ⟨_, some [0, 1]⟩, ⟨_, some [1]⟩, hall, rfl, rfl, rfl, ?_, ?_, ?_, ?_⟩
  · rw [Bool.eq_false_iff, ne_eq, hcomplete]
    exact Nat.ne_of_beq_eq_false rfl
  · exact (hfound _).1.mpr (List.mem_singleton_self _)
  · rw [Bool.eq_false_iff, ne_eq, (hfound _).1]
    intro hmem
    have hne : (⟨7⟩ : SiteId) ≠ ⟨3⟩ := by decide
    exact hne (List.mem_singleton.mp hmem)
  · exact ((hfound _).2 _).mpr ⟨List.mem_singleton_self _, rfl⟩

end SiteCollection

end HazardReach
