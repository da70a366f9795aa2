import HazardReach.Proofs.Cutoff.Transfer

/-! What makes an entry refused, and with it every table that it is given for. A check that looks at
neighbours in order finds any two magnitudes that compare equal, so that only the numbers of an
entry count and not how they are arranged. -/
namespace HazardReach

open Scalar

variable {α : Type} [Scalar α]

namespace Cutoff

/-- A distance that is not one, no pairs at all, a pair with a number that will not do, or two pairs
with magnitudes that compare equal, wherever they stand. -/
def Faulty : Cutoff α → Prop
  | fixed km => isFinite km = false ∨ km < 0
  | byMagnitude pairs =>
    pairs = [] ∨ (∃ p ∈ pairs, isFinite p.1 = false ∨ isFinite p.2 = false ∨ p.2 < 0) ∨
      ¬pairs.Pairwise fun p q => (p.1 == q.1) = false

instance : DecidablePred (Faulty (α := α))
  | fixed km => inferInstanceAs (Decidable (isFinite km = false ∨ km < 0))
  | byMagnitude [] => isTrue (.inl rfl)
  | byMagnitude (p :: pairs) =>
    decidable_of_iff ((∃ q ∈ p :: pairs, isFinite q.1 = false ∨ isFinite q.2 = false ∨ q.2 < 0) ∨
      ¬(p :: pairs).Pairwise fun p q => (p.1 == q.1) = false) (by simp [Faulty])

theorem repeated?_eq_none {pairs : List (α × α)}
    (h : pairs.Pairwise fun p q => (p.1 == q.1) = false) : repeated? pairs = none := by
  induction pairs with
  | nil => rfl
  | cons p rest ih =>
    cases rest with
    | nil => rfl
    | cons q rest =>
      obtain ⟨hp, hrest⟩ := List.pairwise_cons.mp h
      rw [repeated?, hp q List.mem_cons_self, if_neg Bool.false_ne_true]
      exact ih hrest

section Ordered

variable [OrderedScalar α]

theorem validPair_eq_false_iff {p : α × α} :
    validPair p = false ↔ isFinite p.1 = false ∨ isFinite p.2 = false ∨ p.2 < 0 := by
  rw [validPair, Bool.and_eq_false_iff, isExtent_eq_false_iff]

theorem pairwise_ne_of_perm {ps qs : List (α × α)} (h : ps.Perm qs)
    (hfinite : ∀ p ∈ ps, isFinite p.1 = true) (hne : ps.Pairwise fun p q => (p.1 == q.1) = false) :
    qs.Pairwise fun p q => (p.1 == q.1) = false := by
  have hboth : ps.Pairwise fun p q => (p.1 == q.1) = false ∧ (q.1 == p.1) = false := by
    apply hne.imp_of_mem
    intro p q hp hq hpq
    refine ⟨hpq, ?_⟩
    rw [Bool.eq_false_iff] at hpq ⊢
    exact mt (OrderedScalar.beq_symm (hfinite q hq) (hfinite p hp)) hpq
  exact ((h.pairwise_iff And.symm).mp hboth).imp And.left

theorem repeated?_sorted_eq_none_iff {pairs : List (α × α)}
    (hfinite : ∀ p ∈ pairs, isFinite p.1 = true) :
    repeated? (sorted pairs) = none ↔ pairs.Pairwise fun p q => (p.1 == q.1) = false := by
  have hperm := sorted_perm pairs
  have hsorted : ∀ p ∈ sorted pairs, isFinite p.1 = true :=
    fun p hp => hfinite p (hperm.mem_iff.mp hp)
  constructor
  · intro h
    apply pairwise_ne_of_perm hperm hsorted
    apply (pairwise_lt_of_repeated? (pairwise_sorted pairs) hsorted h).imp_of_mem
    intro p q hp hq
    exact OrderedScalar.not_beq_of_lt (hsorted p hp) (hsorted q hq)
  · intro h
    exact repeated?_eq_none (pairwise_ne_of_perm hperm.symm hfinite h)

theorem exists_check_iff {given : Cutoff α} :
    (∃ cutoff, given.check = .ok cutoff) ↔ ¬given.Faulty := by
  constructor
  · rintro ⟨cutoff, h⟩ hfaulty
    obtain ⟨km, rfl, -, hextent⟩ | ⟨pairs, rfl, -, hne, hvalid, hrepeated⟩ := check_cases h
    · rw [Faulty, ← isExtent_eq_false_iff, hextent] at hfaulty
      contradiction
    · have hfinite : ∀ p ∈ pairs, isFinite p.1 = true :=
        fun p hp => (validPair_iff.mp (hvalid p hp)).1
      rw [repeated?_sorted_eq_none_iff hfinite] at hrepeated
      obtain hnil | ⟨p, hp, hbad⟩ | htwice := hfaulty
      · exact hne hnil
      · rw [← validPair_eq_false_iff, hvalid p hp] at hbad
        contradiction
      · exact htwice hrepeated
  · intro h
    cases given with
    | fixed km =>
      rw [Faulty, ← isExtent_eq_false_iff, Bool.not_eq_false] at h
      exact ⟨_, check_fixed h⟩
    | byMagnitude pairs =>
      rw [Faulty, not_or, not_or, not_not] at h
      obtain ⟨hne, hgood, hdistinct⟩ := h
      have hvalid : ∀ p ∈ pairs, validPair p = true := by
        intro p hp
        rw [← Bool.not_eq_false, validPair_eq_false_iff]
        exact fun hbad => hgood ⟨p, hp, hbad⟩
      have hfinite : ∀ p ∈ pairs, isFinite p.1 = true :=
        fun p hp => (validPair_iff.mp (hvalid p hp)).1
      exact ⟨_, check_byMagnitude hne hvalid rfl
        ((repeated?_sorted_eq_none_iff hfinite).mpr hdistinct)⟩

end Ordered

end Cutoff

namespace CutoffTable

variable {entries : List (String × Cutoff α)} {t : CutoffTable α}

theorem exists_check_of_insertAll {u : CutoffTable α} (h : t.insertAll entries = .ok u) :
    ∀ entry ∈ entries, ∃ cutoff, entry.2.check = .ok cutoff := by
  induction entries generalizing t with
  | nil => simp
  | cons entry rest ih =>
    unfold insertAll at h
    split at h
    · rename_i cutoff hcheck
      rw [List.forall_mem_cons]
      exact ⟨⟨cutoff, hcheck⟩, ih h⟩
    · contradiction

variable [OrderedScalar α]

theorem exists_ofEntries_iff :
    (∃ t, ofEntries entries = .ok t) ↔ ∀ entry ∈ entries, ¬entry.2.Faulty := by
  simp only [← Cutoff.exists_check_iff]
  exact ⟨fun ⟨_, h⟩ => exists_check_of_insertAll h, fun h => exists_insertAll h empty⟩

theorem exists_ofEntries_default [NumberText α] {cutoff : Cutoff α} (h : ¬cutoff.Faulty) :
    ∃ t, ofEntries [(defaultRegion, cutoff)] = .ok t ∧
      ∀ region ≠ defaultRegion, t.contains region = false := by
  have hgood : ∀ entry ∈ [(defaultRegion, cutoff)], ¬entry.2.Faulty := by simpa
  obtain ⟨t, ht⟩ := exists_ofEntries_iff.mpr hgood
  refine ⟨t, ht, fun region hregion => ?_⟩
  rw [Bool.eq_false_iff, ne_eq, (keeps_of_ofEntries ht).contains_iff_given]
  simp [hregion]

/-- A table is refused for any faulty entry, also one that a later entry would replace. -/
theorem ofEntries_error_iff :
    (∃ e, ofEntries entries = .error e) ↔ ∃ entry ∈ entries, entry.2.Faulty := by
  have hok : (∃ t, ofEntries entries = .ok t) ↔ _ := exists_ofEntries_iff
  cases h : ofEntries entries with
  | error e => simpa [h] using hok
  | ok t => simpa [h] using hok

end CutoffTable

end HazardReach
