import HazardReach.Site.Collection
import Mathlib.Data.List.Sort

/-! Positions of site identifiers. Reading sites one by one makes the positions the inverse of the
list, which is what keeps identifiers distinct and lets them be resolved. Among the positions of a
view, which ascend, halving finds each one; sorting without repeats puts any positions into that
form, and forgets all about them but which they are. -/
namespace HazardReach

private theorem halves {numbers above : List Nat} {middle : Nat}
    (hsplit : numbers.drop (numbers.length / 2) = middle :: above)
    (h : numbers.Pairwise (· < ·)) :
    let below := numbers.take (numbers.length / 2)
    (below.Pairwise (· < ·) ∧ ∀ j ∈ below, j < middle) ∧
      (above.Pairwise (· < ·) ∧ ∀ j ∈ above, middle < j) ∧
        ∀ j, j ∈ numbers ↔ j ∈ below ∨ j = middle ∨ j ∈ above := by
  intro below
  have hnumbers : numbers = below ++ middle :: above := by
    rw [← hsplit, List.take_append_drop]
  rw [hnumbers, List.pairwise_append, List.pairwise_cons] at h
  refine ⟨⟨h.1, fun j hj => h.2.2 j hj middle (by simp)⟩, ⟨h.2.1.2, h.2.1.1⟩, fun j => ?_⟩
  rw [← List.mem_cons, ← List.mem_append, ← hnumbers]

theorem bisect_iff_mem {i : Nat} {numbers : List Nat} (h : numbers.Pairwise (· < ·)) :
    bisect i numbers = true ↔ i ∈ numbers := by
  fun_induction bisect i numbers with
  | case1 numbers hsplit =>
    rw [List.drop_eq_nil_iff] at hsplit
    have hnil : numbers = [] := List.eq_nil_of_length_eq_zero (by omega)
    simp [hnil]
  | case2 numbers above hsplit =>
    have hmem := (halves hsplit h).2.2 i
    simp [hmem]
  | case3 numbers middle above hsplit hne hlt ih =>
    obtain ⟨hbelow, habove, hmem⟩ := halves hsplit h
    have hnot : i ∉ above := fun hi => Nat.lt_asymm hlt (habove.2 i hi)
    rw [ih hbelow.1, hmem]
    simp [hne, hnot]
  | case4 numbers middle above hsplit hne hge ih =>
    obtain ⟨hbelow, habove, hmem⟩ := halves hsplit h
    have hnot : i ∉ numbers.take (numbers.length / 2) := fun hi => hge (hbelow.2 i hi)
    rw [ih habove.1, hmem]
    simp [hne, hnot]

variable {α : Type}

section Ascending

variable {β : Type} [BEq β] [LawfulBEq β]

theorem mem_unrepeated {x : β} {values : List β} : x ∈ unrepeated values ↔ x ∈ values := by
  fun_induction unrepeated values with
  | case1 y z rest heq ih =>
    rw [ih, eq_of_beq heq]
    simp
  | case2 y z rest hne ih => rw [List.mem_cons, ih, ← List.mem_cons]
  | case3 values hshort => rfl

theorem pairwise_unrepeated {key : β → Nat} (hkey : ∀ x y, key x = key y → x = y) {values : List β}
    (h : values.Pairwise fun x y => key x ≤ key y) :
    (unrepeated values).Pairwise fun x y => key x < key y := by
  fun_induction unrepeated values with
  | case1 y z rest heq ih => exact ih h.of_cons
  | case2 y z rest hne ih =>
    have hlt : key y < key z := by
      have hle := (List.pairwise_cons.mp h).1 z (by simp)
      have hne : key y ≠ key z := fun heq => hne (by simp [hkey y z heq])
      omega
    refine List.pairwise_cons.mpr ⟨?_, ih h.of_cons⟩
    intro x hx
    rcases List.mem_cons.mp (mem_unrepeated.mp hx) with rfl | hx
    · exact hlt
    · exact Nat.lt_of_lt_of_le hlt ((List.pairwise_cons.mp h.of_cons).1 x hx)
  | case3 values hshort =>
    match values, hshort with
    | [], _ => exact .nil
    | [x], _ => exact List.pairwise_singleton _ _
    | x :: y :: rest, hshort => exact (hshort x y rest rfl).elim

theorem mem_ascending (key : β → Nat) {x : β} {values : List β} :
    x ∈ ascending key values ↔ x ∈ values := by
  rw [ascending, mem_unrepeated, List.mem_mergeSort]

theorem pairwise_ascending {key : β → Nat} (hkey : ∀ x y, key x = key y → x = y)
    (values : List β) : (ascending key values).Pairwise fun x y => key x < key y := by
  have hsorted : (values.mergeSort fun x y => decide (key x ≤ key y)).Pairwise
      fun x y => decide (key x ≤ key y) = true :=
    List.pairwise_mergeSort (fun x y z => by simpa using Nat.le_trans)
      (fun x y => by simpa using Nat.le_total _ _) values
  simp only [decide_eq_true_eq] at hsorted
  exact pairwise_unrepeated hkey hsorted

theorem ascending_congr {key : β → Nat} (hkey : ∀ x y, key x = key y → x = y)
    {values others : List β} (h : ∀ x, x ∈ values ↔ x ∈ others) :
    ascending key values = ascending key others := by
  have hirrefl : Std.Irrefl fun x y => key x < key y := ⟨fun x => Nat.lt_irrefl _⟩
  have hasymm : Std.Antisymm fun x y => key x < key y :=
    ⟨fun x y hxy hyx => absurd hxy (Nat.lt_asymm hyx)⟩
  apply (pairwise_ascending hkey values).eq_of_mem_iff (pairwise_ascending hkey others)
  intro x
  rw [mem_ascending, mem_ascending, h]

end Ascending

namespace SiteSet

/-- Each identifier of the list is found at its own place, and no other identifier is found. -/
def Inverse (positions : Std.HashMap SiteId Nat) (sites : List (Site α)) : Prop :=
  ∀ id i, positions[id]? = some i ↔ ∃ s : Site α, sites[i]? = some s ∧ s.id = id

def WellFormed (set : SiteSet α) : Prop := Inverse set.positions set.sites.toList

theorem Inverse.nil : Inverse {} ([] : List (Site α)) := by
  intro id i
  simp

theorem Inverse.getElem?_ids {positions : Std.HashMap SiteId Nat} {sites : List (Site α)}
    (h : Inverse positions sites) (id : SiteId) (i : Nat) :
    positions[id]? = some i ↔ (sites.map (·.id))[i]? = some id := by
  rw [h id i, List.getElem?_map, Option.map_eq_some_iff]

theorem Inverse.mem_iff {positions : Std.HashMap SiteId Nat} {sites : List (Site α)}
    (h : Inverse positions sites) (id : SiteId) : id ∈ positions ↔ id ∈ sites.map (·.id) := by
  rw [Std.HashMap.mem_iff_isSome_getElem?, Option.isSome_iff_exists, List.mem_iff_getElem?]
  exact exists_congr (h.getElem?_ids id)

theorem Inverse.id_inj {positions : Std.HashMap SiteId Nat} {sites : List (Site α)}
    (h : Inverse positions sites) {s t : Site α} (hs : s ∈ sites) (ht : t ∈ sites)
    (hid : s.id = t.id) : s = t := by
  obtain ⟨i, hi⟩ := List.mem_iff_getElem?.mp hs
  obtain ⟨j, hj⟩ := List.mem_iff_getElem?.mp ht
  have hsi := (h t.id i).mpr ⟨s, hi, hid⟩
  have htj := (h t.id j).mpr ⟨t, hj, rfl⟩
  have hij : i = j := Option.some.inj (hsi.symm.trans htj)
  rw [hij] at hi
  exact Option.some.inj (hi.symm.trans hj)

private theorem getElem?_concat_eq_some_iff {sites : List (Site α)} {s t : Site α} {i : Nat} :
    (sites ++ [s])[i]? = some t ↔ sites[i]? = some t ∨ sites.length = i ∧ s = t := by
  rcases Nat.lt_trichotomy i sites.length with hlt | heq | hgt
  · have hne : sites.length ≠ i := by omega
    rw [List.getElem?_append_left hlt]
    simp [hne]
  · simp [heq]
  · have hne : sites.length ≠ i := by omega
    have hbeyond : (sites ++ [s]).length ≤ i := by simp; omega
    rw [List.getElem?_eq_none hbeyond, List.getElem?_eq_none (by omega)]
    simp [hne]

theorem Inverse.insert {positions : Std.HashMap SiteId Nat} {sites : List (Site α)}
    (h : Inverse positions sites) {s : Site α} (hnew : ¬positions.contains s.id) :
    Inverse (positions.insert s.id sites.length) (sites ++ [s]) := by
  have hfree : ∀ (j : Nat) (t : Site α), sites[j]? = some t → t.id ≠ s.id := by
    intro j t hj hid
    have hfound := (h s.id j).mpr ⟨t, hj, hid⟩
    rw [Std.HashMap.contains_eq_isSome_getElem?, hfound] at hnew
    exact hnew rfl
  intro id i
  rw [Std.HashMap.getElem?_insert]
  simp only [getElem?_concat_eq_some_iff]
  split
  · rename_i hbeq
    have hid : s.id = id := eq_of_beq hbeq
    apply Iff.intro
    · intro hi
      exact ⟨s, .inr ⟨Option.some.inj hi, rfl⟩, hid⟩
    · intro hi
      obtain ⟨t, ht, hid'⟩ := hi
      rcases ht with ht | ht
      · exact absurd (hid'.trans hid.symm) (hfree i t ht)
      · rw [ht.1]
  · rename_i hbeq
    have hne : s.id ≠ id := fun heq => hbeq (beq_iff_eq.mpr heq)
    rw [h id i]
    apply exists_congr
    intro t
    apply and_congr_left
    intro hid
    refine (or_iff_left ?_).symm
    intro ht
    exact hne (ht.2 ▸ hid)

/-- Reading the sites one by one keeps the positions inverse to what has been read. -/
theorem index_inverse [Scalar α] {rest done : List (Site α)}
    {positions result : Std.HashMap SiteId Nat} (h : Inverse positions done)
    (hindex : index rest done.length positions = .ok result) : Inverse result (done ++ rest) := by
  induction rest generalizing done positions with
  | nil =>
    rw [← Except.ok.inj hindex]
    simpa using h
  | cons s rest ih =>
    rw [index] at hindex
    split at hindex
    · contradiction
    · split at hindex
      · contradiction
      · rename_i hnew
        have hlength : done.length + 1 = (done ++ [s]).length := by simp
        rw [hlength] at hindex
        have hnext := ih (h.insert hnew) hindex
        simpa using hnext

theorem index_append [Scalar α] {more done : List (Site α)} {positions : Std.HashMap SiteId Nat}
    (h : Inverse positions done) (hfinite : ∀ s ∈ more, s.isFinite = true)
    (hnodup : ((done ++ more).map (·.id)).Nodup) (rest : List (Site α)) :
    ∃ result, Inverse result (done ++ more) ∧
      index (more ++ rest) done.length positions = index rest (done ++ more).length result := by
  induction more generalizing done positions with
  | nil => exact ⟨positions, by simpa using h, by simp⟩
  | cons s more ih =>
    have hnew : ¬positions.contains s.id := by
      rw [Std.HashMap.contains_iff_mem, h.mem_iff]
      intro hmem
      rw [List.map_append, List.nodup_append] at hnodup
      exact hnodup.2.2 s.id hmem s.id (by simp) rfl
    have hlength : done.length + 1 = (done ++ [s]).length := by simp
    obtain ⟨result, hresult, hindex⟩ :=
      ih (h.insert hnew) (fun t ht => hfinite t (by simp [ht])) (by simpa using hnodup)
    rw [List.append_cons]
    refine ⟨result, hresult, ?_⟩
    rw [List.cons_append, index, if_neg (by simp [hfinite s (by simp)]), if_neg hnew, hlength]
    exact hindex

theorem index_ok [Scalar α] {sites : List (Site α)} (hfinite : ∀ s ∈ sites, s.isFinite = true)
    (hnodup : (sites.map (·.id)).Nodup) :
    ∃ positions, Inverse positions sites ∧ index sites 0 {} = .ok positions := by
  have hindex := index_append Inverse.nil hfinite hnodup []
  rwa [List.append_nil] at hindex

theorem resolve_eq_ok_iff {set : SiteSet α} {ids : List SiteId} {places : List Nat} :
    set.resolve ids = .ok places ↔
      (∀ id ∈ ids, id ∈ set.positions) ∧ ids.filterMap (set.positions[·]?) = places := by
  induction ids generalizing places with
  | nil => simp [resolve]
  | cons id rest ih =>
    simp only [List.mem_cons, forall_eq_or_imp]
    cases hid : set.positions[id]? with
    | none =>
      have hno : id ∉ set.positions := by
        rw [Std.HashMap.mem_iff_isSome_getElem?, hid]
        simp
      simp [resolve, hno]
    | some i =>
      have hyes : id ∈ set.positions := by
        rw [Std.HashMap.mem_iff_isSome_getElem?, hid]
        rfl
      rw [resolve, hid, List.filterMap_cons_some hid]
      simp only [hyes, true_and]
      cases hrest : set.resolve rest with
      | error e =>
        have hno : ¬∀ id ∈ rest, id ∈ set.positions := by
          intro hall
          have hok := ih.mpr ⟨hall, rfl⟩
          rw [hrest] at hok
          contradiction
        simp only [Except.map, hno, false_and]
        exact ⟨fun h => by contradiction, False.elim⟩
      | ok found =>
        have hfound := ih.mp hrest
        simp only [Except.map, Except.ok.injEq, hfound.2]
        exact (and_iff_right hfound.1).symm

end SiteSet

end HazardReach
