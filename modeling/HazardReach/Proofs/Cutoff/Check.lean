import HazardReach.Cutoff.Table
import HazardReach.Proofs.Lawful
import Mathlib.Data.List.Forall2

/-! Checked entries. A check sorts and refuses, and changes nothing else: what it lets through is
the entry that was given with its pairs in order, and lets itself through again. Entries that
compare equal are one entry but for numbers that compare equal, and so are the curves through
them. -/
namespace HazardReach

open Scalar

variable {α : Type} [Scalar α]

namespace Cutoff

/-- What an entry of a table satisfies. -/
def Valid : Cutoff α → Prop
  | fixed km => isFinite km = true ∧ 0 ≤ km
  | byMagnitude pairs =>
    pairs ≠ [] ∧ (∀ p ∈ pairs, isFinite p.1 = true ∧ isFinite p.2 = true ∧ 0 ≤ p.2) ∧
      pairs.Pairwise fun p q => p.1 < q.1

/-- One entry is the other with its pairs in another order. -/
def Reorders : Cutoff α → Cutoff α → Prop
  | fixed x, fixed y => x = y
  | byMagnitude ps, byMagnitude qs => ps.Perm qs
  | _, _ => False

theorem validPair_iff {p : α × α} :
    validPair p = true ↔ isFinite p.1 = true ∧ isFinite p.2 = true ∧ 0 ≤ p.2 := by
  rw [validPair, Bool.and_eq_true, isExtent_iff]

theorem sorted_perm (pairs : List (α × α)) : (sorted pairs).Perm pairs :=
  List.mergeSort_perm pairs _

theorem sorted_ne_nil {pairs : List (α × α)} (h : pairs ≠ []) : sorted pairs ≠ [] := by
  intro hnil
  apply h
  rw [← List.perm_nil, ← hnil]
  exact (sorted_perm pairs).symm

theorem check_fixed {km : α} (h : isExtent km = true) : (fixed km).check = .ok (fixed km) := by
  simp only [check, h, if_true]

theorem check_byMagnitude {pairs inOrder : List (α × α)} (hne : pairs ≠ [])
    (hvalid : ∀ p ∈ pairs, validPair p = true) (hsorted : sorted pairs = inOrder)
    (hrepeated : repeated? inOrder = none) :
    (byMagnitude pairs).check = .ok (byMagnitude inOrder) := by
  have hempty : ¬pairs.isEmpty = true := by rwa [List.isEmpty_iff]
  have hfind : pairs.find? (fun p => !validPair p) = none := by
    rw [List.find?_eq_none]
    intro p hp
    simpa using hvalid p hp
  simp only [check, if_neg hempty, hfind, hsorted, hrepeated]

theorem check_cases {given cutoff : Cutoff α} (h : given.check = .ok cutoff) :
    (∃ km, given = fixed km ∧ cutoff = fixed km ∧ isExtent km = true) ∨
      ∃ pairs, given = byMagnitude pairs ∧ cutoff = byMagnitude (sorted pairs) ∧ pairs ≠ [] ∧
        (∀ p ∈ pairs, validPair p = true) ∧ repeated? (sorted pairs) = none := by
  cases given with
  | fixed km =>
    left
    simp only [check] at h
    split at h
    · exact ⟨km, rfl, (Except.ok.inj h).symm, by assumption⟩
    · contradiction
  | byMagnitude pairs =>
    right
    simp only [check] at h
    split at h
    · contradiction
    · rename_i hne
      split at h
      · contradiction
      · rename_i hfind
        split at h
        · contradiction
        · rename_i hrepeated
          refine ⟨pairs, rfl, (Except.ok.inj h).symm, ?_, ?_, hrepeated⟩
          · rwa [List.isEmpty_iff] at hne
          · intro p hp
            simpa using List.find?_eq_none.mp hfind p hp

theorem reorders_of_check {given cutoff : Cutoff α} (h : given.check = .ok cutoff) :
    cutoff.Reorders given := by
  obtain ⟨km, rfl, rfl, -⟩ | ⟨pairs, rfl, rfl, -, -, -⟩ := check_cases h
  · rfl
  · exact sorted_perm pairs

variable [LawfulScalar α]

theorem pairwise_sorted (pairs : List (α × α)) :
    (sorted pairs).Pairwise fun p q => totalLE p.1 q.1 = true :=
  List.pairwise_mergeSort (fun p q r => LawfulScalar.totalLE_trans p.1 q.1 r.1)
    (fun p q => LawfulScalar.totalLE_total p.1 q.1) pairs

theorem pairwise_lt_of_repeated? {pairs : List (α × α)}
    (hsorted : pairs.Pairwise fun p q => totalLE p.1 q.1 = true)
    (hfinite : ∀ p ∈ pairs, isFinite p.1 = true) (h : repeated? pairs = none) :
    pairs.Pairwise fun p q => p.1 < q.1 := by
  induction pairs with
  | nil => exact .nil
  | cons p rest ih =>
    cases rest with
    | nil => exact List.pairwise_singleton _ _
    | cons q rest =>
      rw [repeated?] at h
      split at h
      · contradiction
      · rename_i hne
        rw [List.forall_mem_cons] at hfinite
        rw [List.pairwise_cons] at hsorted
        have htail := ih hsorted.2 hfinite.2 h
        have hq := hfinite.2 q List.mem_cons_self
        have hlt : p.1 < q.1 := LawfulScalar.lt_of_totalLE hfinite.1 hq
          (hsorted.1 q List.mem_cons_self) (Bool.eq_false_iff.mpr hne)
        apply List.pairwise_cons.mpr ⟨_, htail⟩
        rw [List.forall_mem_cons]
        refine ⟨hlt, ?_⟩
        intro r hr
        exact LawfulScalar.lt_trans hfinite.1 hq (hfinite.2 r (List.mem_cons_of_mem q hr)) hlt
          ((List.pairwise_cons.mp htail).1 r hr)

theorem valid_of_check {given cutoff : Cutoff α} (h : given.check = .ok cutoff) :
    cutoff.Valid := by
  obtain ⟨km, rfl, rfl, hextent⟩ | ⟨pairs, rfl, rfl, hne, hvalid, hrepeated⟩ := check_cases h
  · exact isExtent_iff.mp hextent
  · have hmem : ∀ p ∈ sorted pairs, isFinite p.1 = true ∧ isFinite p.2 = true ∧ 0 ≤ p.2 := by
      intro p hp
      exact validPair_iff.mp (hvalid p ((sorted_perm pairs).mem_iff.mp hp))
    exact ⟨sorted_ne_nil hne, hmem,
      pairwise_lt_of_repeated? (pairwise_sorted pairs) (fun p hp => (hmem p hp).1) hrepeated⟩

theorem check_of_check {given cutoff : Cutoff α} (h : given.check = .ok cutoff) :
    cutoff.check = .ok cutoff := by
  obtain ⟨km, rfl, rfl, hextent⟩ | ⟨pairs, rfl, rfl, hne, hvalid, hrepeated⟩ := check_cases h
  · exact check_fixed hextent
  · have hsorted : sorted (sorted pairs) = sorted pairs :=
      List.mergeSort_of_pairwise (pairwise_sorted pairs)
    apply check_byMagnitude (sorted_ne_nil hne) _ hsorted hrepeated
    intro p hp
    exact hvalid p ((sorted_perm pairs).mem_iff.mp hp)

end Cutoff

/-- Pairs whose numbers are alike. -/
def AlikePairs (p q : α × α) : Prop := Alike p.1 q.1 ∧ Alike p.2 q.2

theorem forall₂_of_isEqv {β : Type} {r : β → β → Bool} {xs ys : List β}
    (h : xs.isEqv ys r = true) : List.Forall₂ (fun x y => r x y = true) xs ys := by
  induction xs generalizing ys with
  | nil =>
    cases ys with
    | nil => exact .nil
    | cons y ys => contradiction
  | cons x xs ih =>
    cases ys with
    | nil => contradiction
    | cons y ys =>
      rw [List.isEqv, Bool.and_eq_true] at h
      exact .cons h.1 (ih h.2)

namespace Curve

variable [LawfulScalar α] {p p' q q' : α × α}

theorem line_alike (hp : AlikePairs p p') (hq : AlikePairs q q') (hlt : p.1 < q.1) (x : α) :
    Alike (line p q x) (line p' q' x) := by
  have hrun : q.1 - p.1 = q'.1 - p'.1 := LawfulScalar.sub_congr hlt hp.1 hq.1
  have hrise := LawfulScalar.alike_sub hq.2 hp.2
  have hoffset := LawfulScalar.alike_sub (Alike.refl x) hp.1
  unfold line
  rw [hrun]
  exact LawfulScalar.alike_add hp.2
    (LawfulScalar.alike_div _ (LawfulScalar.alike_mul hoffset hrise))

theorem follow_alike {rest rest' : List (α × α)} (hrest : List.Forall₂ AlikePairs rest rest')
    (hp : AlikePairs p p') (hq : AlikePairs q q')
    (hlt : (p :: q :: rest).Pairwise fun p q => p.1 < q.1) (x : α) :
    Alike (follow x p q rest) (follow x p' q' rest') := by
  have hpq : p.1 < q.1 := (List.pairwise_cons.mp hlt).1 q List.mem_cons_self
  induction hrest generalizing p p' q q' with
  | nil => exact line_alike hp hq hpq x
  | cons hr hrest ih =>
    have hreached := LawfulScalar.le_congr x hq.1
    unfold follow
    by_cases hle : q.1 ≤ x
    · rw [if_pos hle, if_pos (hreached.mp hle)]
      have htail := (List.pairwise_cons.mp hlt).2
      exact ih hq hr htail ((List.pairwise_cons.mp htail).1 _ List.mem_cons_self)
    · rw [if_neg hle, if_neg (mt hreached.mpr hle)]
      exact line_alike hp hq hpq x

theorem value_alike {c d : Curve α} (h : List.Forall₂ AlikePairs c.knots d.knots)
    (hlt : c.knots.Pairwise fun p q => p.1 < q.1) (x : α) : Alike (c.value x) (d.value x) := by
  obtain ⟨p, rest⟩ := c
  obtain ⟨p', rest'⟩ := d
  obtain ⟨hp, hrest⟩ := List.forall₂_cons.mp h
  cases hrest with
  | nil => exact hp.2
  | cons hq hrest => exact follow_alike hrest hp hq hlt x

end Curve

namespace Cutoff

/-- Entries of the same shape whose numbers are alike. -/
def AlikeEntries : Cutoff α → Cutoff α → Prop
  | fixed x, fixed y => Alike x y
  | byMagnitude ps, byMagnitude qs => List.Forall₂ AlikePairs ps qs
  | _, _ => False

theorem alike_of_same {c d : Cutoff α} (h : c.same d = true) : c.AlikeEntries d := by
  cases c with
  | fixed x =>
    cases d with
    | fixed y => exact .of_beq h
    | byMagnitude qs => contradiction
  | byMagnitude ps =>
    cases d with
    | fixed y => contradiction
    | byMagnitude qs =>
      apply (forall₂_of_isEqv h).imp
      intro p q hpq
      rw [Bool.and_eq_true] at hpq
      exact ⟨.of_beq hpq.1, .of_beq hpq.2⟩

/-- The distance of an entry at a magnitude; without one, the distance at its largest magnitude. -/
inductive Gives : Cutoff α → Option α → α → Prop where
  | fixed {km : α} {magnitude : Option α} : Gives (fixed km) magnitude km
  | largest {pairs : List (α × α)} {p : α × α} (h : pairs.getLast? = some p) :
    Gives (byMagnitude pairs) none p.2
  | onCurve {curve : Curve α} {magnitude : α} :
    Gives (byMagnitude curve.knots) (some magnitude) (curve.value magnitude)

theorem Valid.exists_gives {c : Cutoff α} (h : c.Valid) (magnitude : Option α) :
    ∃ km, c.Gives magnitude km := by
  cases c with
  | fixed km => exact ⟨km, .fixed⟩
  | byMagnitude pairs =>
    cases pairs with
    | nil => exact absurd rfl h.1
    | cons first rest =>
      cases magnitude with
      | none => exact ⟨_, .largest (List.getLast?_eq_some_getLast h.1)⟩
      | some magnitude => exact ⟨_, @Gives.onCurve α _ ⟨first, rest⟩ magnitude⟩

theorem Gives.alike [LawfulScalar α] {c d : Cutoff α} {magnitude : Option α} {x y : α}
    (hx : c.Gives magnitude x) (hy : d.Gives magnitude y) (hc : c.Valid) (h : c.AlikeEntries d) :
    Alike x y := by
  cases hx with
  | fixed =>
    cases hy with
    | fixed => exact h
    | largest => contradiction
    | onCurve => contradiction
  | largest hlast =>
    cases hy with
    | fixed => contradiction
    | largest hlast' =>
      rw [← List.head?_reverse] at hlast hlast'
      have hreverse := List.forall₂_reverse_iff.mpr h
      obtain ⟨rest, hps⟩ := List.head?_eq_some_iff.mp hlast
      obtain ⟨rest', hqs⟩ := List.head?_eq_some_iff.mp hlast'
      rw [hps, hqs] at hreverse
      exact (List.forall₂_cons.mp hreverse).1.2
  | onCurve =>
    cases hy with
    | fixed => contradiction
    | onCurve => exact Curve.value_alike h hc.2.2 _

end Cutoff

end HazardReach
