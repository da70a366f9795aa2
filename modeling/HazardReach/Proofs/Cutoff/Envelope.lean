import HazardReach.Proofs.Cutoff.Segment

/-! What the cutoff without a magnitude says of the cutoffs with one. Between the smallest and the
largest magnitude of its entry no cutoff is above all distances of the entry. Without a magnitude
the distance at the largest one is given, so that it bounds the others just when it is the largest
distance. -/
namespace HazardReach

namespace Cutoff

variable {K : Type} [LE K]

/-- The magnitude is between those of two pairs; any magnitude is, where none is asked for. -/
def Spans : Cutoff K → K → Prop
  | fixed _, _ => True
  | byMagnitude pairs, magnitude => (∃ p ∈ pairs, p.1 ≤ magnitude) ∧ ∃ q ∈ pairs, magnitude ≤ q.1

/-- Some distance of the entry is not below this one. -/
def Covers : Cutoff K → K → Prop
  | fixed km, x => x ≤ km
  | byMagnitude pairs, x => ∃ p ∈ pairs, x ≤ p.2

/-- The distance at the largest magnitude is the largest distance. -/
def EndsHighest : Cutoff K → Prop
  | fixed _ => True
  | byMagnitude pairs => ∀ top ∈ pairs, (∀ p ∈ pairs, p.1 ≤ top.1) → ∀ p ∈ pairs, p.2 ≤ top.2

end Cutoff

variable {K : Type} [LinearOrder K]

section Knots

variable {knots : List (K × K)} (h : knots.Pairwise fun p q => p.1 < q.1)

include h

theorem le_of_getLast? {top : K × K} (htop : knots.getLast? = some top) :
    ∀ p ∈ knots, p.1 ≤ top.1 := by
  intro p hp
  obtain ⟨i, hp⟩ := List.mem_iff_getElem?.mp hp
  rw [List.getLast?_eq_getElem?] at htop
  obtain ⟨hi, -⟩ := List.getElem?_eq_some_iff.mp hp
  obtain hlt | heq := Nat.lt_or_eq_of_le (Nat.le_sub_one_of_lt hi)
  · exact (lt_of_getElem? h hp htop hlt).le
  · rw [heq, htop] at hp
    rw [Option.some.inj hp]

variable [Field K] {f : K → K} {x : K}

theorem RunsThrough.exists_le (hf : RunsThrough knots f) (hlow : ∃ p ∈ knots, p.1 ≤ x)
    (hhigh : ∃ q ∈ knots, x ≤ q.1) : ∃ p ∈ knots, f x ≤ p.2 := by
  obtain ⟨first, hfirst, hreached⟩ := hlow
  obtain ⟨last, hlast, hahead⟩ := hhigh
  by_cases hlength : 2 ≤ knots.length
  · -- The first and the last chord go on past their knots, but `x` does not.
    obtain ⟨p, q, hp, hq, -, hbegins, hends⟩ := exists_segment h hlength x
    have hpx : p.1 ≤ x := by
      obtain hzero | hle := hbegins
      · rw [le_iff_lt_countP h hp, hzero, List.countP_pos_iff]
        exact ⟨first, hfirst, decide_eq_true hreached⟩
      · exact hle
    have hxq : x ≤ q.1 := by
      obtain hle | hend := hends
      · exact hle
      · have htop : knots.getLast? = some q := by
          rw [List.getLast?_eq_getElem?, ← hend]
          exact hq
        exact hahead.trans (le_of_getLast? h htop last hlast)
    have hle := (hf.between _ p q hp hq x hpx hxq).2.2
    rcases max_choice p.2 q.2 with hmax | hmax
    · exact ⟨p, List.mem_of_getElem? hp, hmax ▸ hle⟩
    · exact ⟨q, List.mem_of_getElem? hq, hmax ▸ hle⟩
  · have hone : knots.length = 1 := by
      have := List.length_pos_of_mem hfirst
      omega
    obtain ⟨p, hp⟩ := List.length_eq_one_iff.mp hone
    exact ⟨p, by simp [hp], (hf.single p hp x).le⟩

end Knots

namespace CutoffTable

variable [Field K] [FloorRing K] [IsStrictOrderedRing K] [NumberText K]

/-- From the smallest to the largest magnitude of an entry no cutoff is above all distances of the
entry. The cutoff without a magnitude bounds all of these just when the largest magnitude has the
largest distance. -/
theorem Obtained.get_le_iff {entries : List (String × Cutoff K)} {t : CutoffTable K}
    (ht : Obtained entries t) {region key : String} {given : Cutoff K}
    (hkey : key = region ∨ t.contains region = false ∧ key = defaultRegion)
    (hgiven : lastGiven? entries key = some given) :
    ∃ limit, t.get region none = .ok limit ∧
      (∀ magnitude, given.Spans magnitude →
        ∃ km, t.get region (some magnitude) = .ok km ∧ given.Covers km) ∧
      ((∀ magnitude, given.Spans magnitude →
        ∃ km, t.get region (some magnitude) = .ok km ∧ km ≤ limit) ↔ given.EndsHighest) := by
  cases given with
  | fixed km =>
    have hget := ht.keeps.get_fixed hkey hgiven
    have hall (magnitude : K) : ∃ x, t.get region (some magnitude) = .ok x ∧ x ≤ km :=
      ⟨km, hget _, le_rfl⟩
    exact ⟨km, hget none, fun magnitude _ => hall magnitude,
      iff_of_true (fun magnitude _ => hall magnitude) trivial⟩
  | byMagnitude pairs =>
    obtain ⟨curve, hperm, hascending, hget, top, hlast, hnone⟩ := ht.keeps.exists_curve hkey hgiven
    have hruns := Curve.value_runsThrough hascending
    have htop := le_of_getLast? hascending hlast
    have hmem := List.mem_of_getLast? hlast
    have hcovers {magnitude : K} (h : Cutoff.Spans (.byMagnitude pairs) magnitude) :
        ∃ p ∈ curve.knots, curve.value magnitude ≤ p.2 := by
      simp only [Cutoff.Spans, ← hperm.mem_iff] at h
      exact hruns.exists_le hascending h.1 h.2
    simp only [Cutoff.Covers, Cutoff.EndsHighest, ← hperm.mem_iff]
    refine ⟨top.2, hnone, fun magnitude h => ⟨_, hget magnitude, hcovers h⟩, ?_, ?_⟩
    · intro h highest hhighest hlargest p hp
      -- Magnitudes are distinct, so that the pair that answers has the largest one.
      have hsame : highest.1 = top.1 := le_antisymm (htop highest hhighest) (hlargest top hmem)
      have hlimit : highest.2 = top.2 := by
        rw [← hruns.knot highest hhighest, hsame, hruns.knot top hmem]
      have hspans : Cutoff.Spans (.byMagnitude pairs) p.1 := by
        simp only [Cutoff.Spans, ← hperm.mem_iff]
        exact ⟨⟨p, hp, le_rfl⟩, p, hp, le_rfl⟩
      obtain ⟨km, hkm, hle⟩ := h p.1 hspans
      rw [hget, hruns.knot p hp] at hkm
      rw [hlimit, Except.ok.inj hkm]
      exact hle
    · intro h magnitude hspans
      obtain ⟨p, hp, hle⟩ := hcovers hspans
      exact ⟨_, hget magnitude, hle.trans (h top hmem htop p hp)⟩

theorem get_le_iff_peaked : ∃ t : CutoffTable ℚ,
    ofEntries [(defaultRegion, .byMagnitude [(8, 250), (5, 100), (7, 300)])] = .ok t ∧
    t.contains "any" = false ∧
    ∃ limit, t.get "any" none = .ok limit ∧
      ¬∀ magnitude, Cutoff.Spans (.byMagnitude [(8, 250), (5, 100), (7, 300)]) magnitude →
        ∃ km, t.get "any" (some magnitude) = .ok km ∧ km ≤ limit := by
  obtain ⟨t, ht, hother⟩ := exists_ofEntries_default
    (show ¬(Cutoff.byMagnitude [((8 : ℚ), (250 : ℚ)), (5, 100), (7, 300)]).Faulty by decide)
  have hregion : t.contains "any" = false := hother _ (by decide)
  obtain ⟨limit, hlimit, -, hiff⟩ := Obtained.get_le_iff (.made ht) (.inr ⟨hregion, rfl⟩) rfl
  refine ⟨t, ht, hregion, limit, hlimit, mt hiff.mp ?_⟩
  intro hends
  have hlow := hends (8, 250) (by simp) (by decide) (7, 300) (by simp)
  norm_num at hlow

/-- A list that falls is accepted, and with the smallest magnitude a source reaches farther than
without one. -/
theorem get_above_limit : ∃ t : CutoffTable ℚ,
    ofEntries [(defaultRegion, .byMagnitude [(5, 300), (7, 100)])] = .ok t ∧
    t.get "any" none = .ok 100 ∧ t.get "any" (some 5) = .ok 300 := by
  obtain ⟨t, ht, hother⟩ := exists_ofEntries_default
    (show ¬(Cutoff.byMagnitude [((5 : ℚ), (300 : ℚ)), (7, 100)]).Faulty by decide)
  obtain ⟨curve, hperm, hascending, hget, top, htop, hnone⟩ :=
    (keeps_of_ofEntries ht).exists_curve (.inr ⟨hother "any" (by decide), rfl⟩) rfl
  have hknots : curve.knots = [(5, 300), (7, 100)] :=
    hperm.eq_of_pairwise (fun _ _ _ _ hlt hgt => absurd hgt hlt.asymm) hascending (by decide)
  have hfirst : curve.value 5 = 300 :=
    (Curve.value_runsThrough hascending).knot (5, 300) (by simp [hknots])
  rw [hknots] at htop
  rw [← Option.some.inj htop] at hnone
  exact ⟨t, ht, hnone, by rw [hget, hfirst]⟩

end CutoffTable

end HazardReach
