import HazardReach.Proofs.Cutoff.Faults
import Mathlib.Data.List.Pairwise

/-! Tables do not tell how their entries were presented. Sorting leaves one order of distinct
magnitudes, and of entries under one key the last one counts, so that a table is made of the last
entry of each key as a set of pairs, and is made again of the entries that it holds. -/
namespace HazardReach

open Scalar

variable {α : Type}

/-- The same keys in another order, each with its pairs in another order. -/
def Rearranged (entries given : List (String × Cutoff α)) : Prop :=
  ∃ between, entries.Perm between ∧
    List.Forall₂ (fun p q => p.1 = q.1 ∧ p.2.Reorders q.2) between given

/-- The entries that no later one under the same key replaces. -/
def lastEntries (entries : List (String × Cutoff α)) : List (String × Cutoff α) :=
  entries.pwFilter fun p q => p.1 ≠ q.1

theorem mem_of_mem_lastEntries {entries : List (String × Cutoff α)} {entry : String × Cutoff α}
    (h : entry ∈ lastEntries entries) : entry ∈ entries :=
  (List.pwFilter_sublist _).subset h

theorem Cutoff.Reorders.refl (c : Cutoff α) : c.Reorders c := by
  cases c with
  | fixed km => rfl
  | byMagnitude pairs => exact List.Perm.refl pairs

theorem Cutoff.Reorders.symm {c d : Cutoff α} (h : c.Reorders d) : d.Reorders c := by
  cases c with
  | fixed km =>
    cases d with
    | fixed km' => exact Eq.symm h
    | byMagnitude qs => contradiction
  | byMagnitude ps =>
    cases d with
    | fixed km => contradiction
    | byMagnitude qs => exact List.Perm.symm h

theorem Rearranged.exists_iff {entries given : List (String × Cutoff α)}
    (h : Rearranged entries given) {p : Cutoff α → Prop}
    (hp : ∀ c d : Cutoff α, c.Reorders d → (p c ↔ p d)) :
    (∃ entry ∈ entries, p entry.2) ↔ ∃ entry ∈ given, p entry.2 := by
  obtain ⟨between, hperm, hpairs⟩ := h
  simp only [hperm.mem_iff]
  clear hperm
  induction hpairs with
  | nil => simp
  | cons hentry hrest ih => simp only [List.exists_mem_cons_iff, hp _ _ hentry.2, ih]

theorem rel_or {β γ : Type} {r : β → γ → Prop} {a b : Option β} {c d : Option γ}
    (h : Option.Rel r a c) (h' : Option.Rel r b d) : Option.Rel r (a.or b) (c.or d) := by
  cases h with
  | some h => exact .some h
  | none => exact h'

namespace Cutoff

variable [Scalar α] [OrderedScalar α]

theorem sorted_eq_of_perm {ps qs : List (α × α)} (h : ps.Perm qs)
    (hfinite : ∀ p ∈ ps, isFinite p.1 = true) (hrepeated : repeated? (sorted ps) = none) :
    sorted ps = sorted qs := by
  have hfinite' : ∀ q ∈ qs, isFinite q.1 = true := fun q hq => hfinite q (h.mem_iff.mpr hq)
  have hrepeated' : repeated? (sorted qs) = none := by
    rw [repeated?_sorted_eq_none_iff hfinite] at hrepeated
    exact (repeated?_sorted_eq_none_iff hfinite').mpr (pairwise_ne_of_perm h hfinite hrepeated)
  have hps : ∀ p ∈ sorted ps, isFinite p.1 = true :=
    fun p hp => hfinite p ((sorted_perm ps).mem_iff.mp hp)
  have hqs : ∀ q ∈ sorted qs, isFinite q.1 = true :=
    fun q hq => hfinite' q ((sorted_perm qs).mem_iff.mp hq)
  apply List.Perm.eq_of_pairwise _
    (pairwise_lt_of_repeated? (pairwise_sorted ps) hps hrepeated)
    (pairwise_lt_of_repeated? (pairwise_sorted qs) hqs hrepeated')
    (((sorted_perm ps).trans h).trans (sorted_perm qs).symm)
  intro p q hp hq hpq hqp
  exact absurd hqp (not_lt_of_lt (hps p hp) (hqs q hq) hpq)

theorem check_of_reorders {c d passed : Cutoff α} (h : c.Reorders d) (hc : c.check = .ok passed) :
    d.check = .ok passed := by
  obtain ⟨km, rfl, rfl, hextent⟩ | ⟨ps, rfl, rfl, hne, hvalid, hrepeated⟩ := check_cases hc
  · cases d with
    | byMagnitude qs => contradiction
    | fixed km' =>
      obtain rfl : km = km' := h
      exact check_fixed hextent
  · cases d with
    | fixed km' => contradiction
    | byMagnitude qs =>
      have hperm : ps.Perm qs := h
      have hfinite : ∀ p ∈ ps, isFinite p.1 = true :=
        fun p hp => (validPair_iff.mp (hvalid p hp)).1
      have hsorted := sorted_eq_of_perm hperm hfinite hrepeated
      have hne' : qs ≠ [] := by
        rintro rfl
        exact hne hperm.eq_nil
      exact check_byMagnitude hne' (fun q hq => hvalid q (hperm.mem_iff.mpr hq)) hsorted.symm
        hrepeated

theorem Reorders.faulty_iff {c d : Cutoff α} (h : c.Reorders d) : c.Faulty ↔ d.Faulty := by
  have hc : (∃ cutoff, c.check = .ok cutoff) ↔ _ := exists_check_iff
  have hd : (∃ cutoff, d.check = .ok cutoff) ↔ _ := exists_check_iff
  rw [← not_iff_not, ← hc, ← hd]
  exact ⟨fun ⟨_, hpass⟩ => ⟨_, check_of_reorders h hpass⟩,
    fun ⟨_, hpass⟩ => ⟨_, check_of_reorders h.symm hpass⟩⟩

end Cutoff

namespace CutoffTable

section LastGiven

variable {entries given : List (String × Cutoff α)} {region : String} {cutoff : Cutoff α}

theorem lastGiven?_lastEntries (entries : List (String × Cutoff α)) (region : String) :
    lastGiven? (lastEntries entries) region = lastGiven? entries region := by
  unfold lastEntries
  induction entries with
  | nil => rfl
  | cons entry rest ih =>
    obtain ⟨key, cutoff⟩ := entry
    by_cases hlast : ∀ q ∈ rest.pwFilter fun p q => p.1 ≠ q.1, key ≠ q.1
    · rw [List.pwFilter_cons_of_pos hlast, lastGiven?_cons, lastGiven?_cons, ih]
    · rw [List.pwFilter_cons_of_neg hlast, lastGiven?_cons, ← ih]
      split
      · rename_i hkey
        push Not at hlast
        obtain ⟨⟨_, later⟩, hmem, rfl⟩ := hlast
        have hsome := isSome_lastGiven?_iff.mpr ⟨later, hmem⟩
        rw [← hkey, Option.or_of_isSome hsome]
      · rw [Option.or_none]

theorem lastGiven?_eq_some_iff (h : (entries.map (·.1)).Nodup) :
    lastGiven? entries region = some cutoff ↔ (region, cutoff) ∈ entries := by
  induction entries with
  | nil => simp [lastGiven?]
  | cons entry rest ih =>
    obtain ⟨key, given⟩ := entry
    rw [List.map_cons, List.nodup_cons] at h
    have hnone : key = region → lastGiven? rest region = none := by
      rintro rfl
      rw [← Option.not_isSome_iff_eq_none, isSome_lastGiven?_iff]
      rintro ⟨later, hlater⟩
      exact h.1 (List.mem_map.mpr ⟨_, hlater, rfl⟩)
    rw [lastGiven?_cons, List.mem_cons, ← ih h.2]
    by_cases hkey : key = region
    · rw [hnone hkey, if_pos hkey, hkey]
      simp [eq_comm]
    · rw [if_neg hkey, Option.or_none]
      simp [Ne.symm hkey]

theorem lastGiven?_rearranged (hkeys : (entries.map (·.1)).Nodup) (h : Rearranged entries given)
    (region : String) :
    Option.Rel Cutoff.Reorders (lastGiven? entries region) (lastGiven? given region) := by
  obtain ⟨between, hperm, hpairs⟩ := h
  have hkeys' : (between.map (·.1)).Nodup := (hperm.map _).nodup_iff.mp hkeys
  have hbetween : lastGiven? entries region = lastGiven? between region := by
    ext cutoff
    rw [lastGiven?_eq_some_iff hkeys, lastGiven?_eq_some_iff hkeys', hperm.mem_iff]
  rw [hbetween]
  clear hperm hkeys hkeys' hbetween
  induction hpairs with
  | nil => exact .none
  | @cons p q rest rest' hpq hrest ih =>
    obtain ⟨hkey, hcutoff⟩ := hpq
    rw [lastGiven?_cons, lastGiven?_cons, ← hkey]
    apply rel_or ih
    split
    · exact .some hcutoff
    · exact .none

end LastGiven

/-- Tables that list the same entries, compare equal and give the same answers. -/
structure Matches [Scalar α] (t u : CutoffTable α) : Prop where
  toList : t.toList = u.toList
  same : t.same u = true
  get : ∀ (region : String) (magnitude : Option α), t.get region magnitude = u.get region magnitude

variable [Scalar α]

theorem Keeps.matches_of_agrees [LawfulScalar α] {entries : List (String × Cutoff α)}
    {t u : CutoffTable α} (ht : t.Keeps entries) (h : u.Agrees t) : u.Matches t :=
  ⟨h.toList, ht.same_of_agrees h, h.get⟩

variable [OrderedScalar α] {entries given : List (String × Cutoff α)} {t u : CutoffTable α}

theorem Keeps.matches_of_reorders (ht : t.Keeps entries) (hu : u.Keeps given)
    (h : ∀ region,
      Option.Rel Cutoff.Reorders (lastGiven? entries region) (lastGiven? given region)) :
    u.Matches t := by
  have hentries (region : String) : u.entries[region]? = t.entries[region]? := by
    have hrel := h region
    cases hlast : lastGiven? entries region with
    | none =>
      rw [hlast] at hrel
      cases hlast' : lastGiven? given region with
      | none => rw [ht.given region hlast, hu.given region hlast']
      | some d =>
        rw [hlast'] at hrel
        contradiction
    | some c =>
      rw [hlast] at hrel
      cases hlast' : lastGiven? given region with
      | none =>
        rw [hlast'] at hrel
        contradiction
      | some d =>
        rw [hlast'] at hrel
        cases hrel with | some hcd =>
        obtain ⟨passed, hcheck, hentry⟩ := ht.passes region c hlast
        obtain ⟨passed', hcheck', hentry'⟩ := hu.passes region d hlast'
        have hpassed := (Cutoff.check_of_reorders hcd hcheck).symm.trans hcheck'
        rw [hentry, hentry', Except.ok.inj hpassed]
  apply ht.matches_of_agrees
  refine ⟨hentries, fun region => Option.ext fun curve => ?_⟩
  rw [hu.curved, ht.curved, hentries]

/-- Of entries under distinct keys neither the order nor that of their pairs decides whether they
make a table, or which. Of entries that are all in order only the last one under each key counts.
Entries are refused just when one of them is faulty, and those that a table holds make it again. -/
theorem ofEntries_rearranged [NumberText α] :
    (∀ entries given : List (String × Cutoff α), (entries.map (·.1)).Nodup →
      Rearranged entries given →
        ((∃ e, ofEntries entries = .error e) ↔ ∃ e, ofEntries given = .error e) ∧
        ∀ t u, ofEntries entries = .ok t → ofEntries given = .ok u → u.Matches t) ∧
    (∀ entries : List (String × Cutoff α), (∀ entry ∈ entries, ¬entry.2.Faulty) →
      ∃ t u, ofEntries entries = .ok t ∧ ofEntries (lastEntries entries) = .ok u ∧ u.Matches t) ∧
    (∀ entries : List (String × Cutoff α),
      (∃ e, ofEntries entries = .error e) ↔ ∃ entry ∈ entries, entry.2.Faulty) ∧
    ∀ (entries : List (String × Cutoff α)) (t : CutoffTable α), Obtained entries t →
      ∃ u, ofEntries t.toList = .ok u ∧ u.Matches t := by
  refine ⟨?_, ?_, fun entries => ofEntries_error_iff, ?_⟩
  · intro entries given hkeys hrearranged
    constructor
    · rw [ofEntries_error_iff, ofEntries_error_iff]
      exact hrearranged.exists_iff fun _ _ h => h.faulty_iff
    · intro t u ht hu
      exact (keeps_of_ofEntries ht).matches_of_reorders (keeps_of_ofEntries hu)
        (lastGiven?_rearranged hkeys hrearranged)
  · intro entries hgood
    obtain ⟨t, ht⟩ := exists_ofEntries_iff.mpr hgood
    obtain ⟨u, hu⟩ := exists_ofEntries_iff.mpr fun entry hentry =>
      hgood entry (mem_of_mem_lastEntries hentry)
    refine ⟨t, u, ht, hu, (keeps_of_ofEntries ht).matches_of_reorders (keeps_of_ofEntries hu) ?_⟩
    intro region
    rw [lastGiven?_lastEntries]
    cases lastGiven? entries region with
    | none => exact .none
    | some cutoff => exact .some (.refl cutoff)
  · intro entries t ht
    obtain ⟨u, hu, hagrees⟩ := ht.keeps.exists_ofEntries
    exact ⟨u, hu, ht.keeps.matches_of_agrees hagrees⟩

/-- Two entries and the two pairs of one of them swapped, an entry that replaces another, and two
zeros that are kept apart by a magnitude between them and are one magnitude all the same. -/
theorem ofEntries_swapped :
    ∃ t u v : CutoffTable Float,
      ofEntries [("Volcanic", .byMagnitude [(7, 300), (5, 100)]), (defaultRegion, .fixed 80)] =
        .ok t ∧
      ofEntries [(defaultRegion, .fixed 80), ("Volcanic", .byMagnitude [(5, 100), (7, 300)])] =
        .ok u ∧ u.Matches t ∧
      ofEntries [(defaultRegion, .fixed 3), ("Volcanic", .byMagnitude [(7, 300), (5, 100)]),
        (defaultRegion, .fixed 80)] = .ok v ∧
      (∃ w, ofEntries
        [("Volcanic", .byMagnitude [(7, 300), (5, 100)]), (defaultRegion, .fixed 80)] = .ok w ∧
        w.Matches v) ∧
      ∃ e, ofEntries [(defaultRegion, .byMagnitude [((0 : Float), 100), (5, 200), (-0.0, 300)])] =
        .error e := by
  obtain ⟨hrearranged, hlast, hfaulty, -⟩ := ofEntries_rearranged (α := Float)
  obtain ⟨t, -, ht, -⟩ := hlast
    [("Volcanic", .byMagnitude [(7, 300), (5, 100)]), (defaultRegion, .fixed 80)] (by decide)
  obtain ⟨u, -, hu, -⟩ := hlast
    [(defaultRegion, .fixed 80), ("Volcanic", .byMagnitude [(5, 100), (7, 300)])] (by decide)
  obtain ⟨v, w, hv, hw, hmatches⟩ := hlast
    [(defaultRegion, .fixed 3), ("Volcanic", .byMagnitude [(7, 300), (5, 100)]),
      (defaultRegion, .fixed 80)] (by decide)
  have hgiven : Rearranged
      [("Volcanic", .byMagnitude [(7, 300), (5, 100)]), (defaultRegion, .fixed (80 : Float))]
      [(defaultRegion, .fixed 80), ("Volcanic", .byMagnitude [(5, 100), (7, 300)])] := by
    refine ⟨_, .swap _ _ [], .cons ⟨rfl, ?_⟩ (.cons ⟨rfl, ?_⟩ .nil)⟩
    · exact .refl _
    · exact List.Perm.swap _ _ []
  have hswapped := (hrearranged _ _ (by decide) hgiven).2 t u ht hu
  exact ⟨t, u, v, ht, hu, hswapped, hv, ⟨w, hw, hmatches⟩, (hfaulty _).mpr (by decide)⟩

end CutoffTable

end HazardReach
