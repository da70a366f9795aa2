import HazardReach.Proofs.Cutoff.Entries
import Mathlib.Data.Rat.Floor

/-! Curves over exact numbers. A segment goes through both of its knots, so that moving on to the
next segment at a knot changes nothing there. Where the knots do not fall neither does the curve,
between them and past both ends, and the cutoffs of a table do not fall with magnitude. -/
namespace HazardReach

variable {K : Type}

/-- No pair has a larger magnitude and a smaller distance than another one. -/
def Cutoff.Rising [LE K] : Cutoff K → Prop
  | fixed _ => True
  | byMagnitude pairs => ∀ p ∈ pairs, ∀ q ∈ pairs, p.1 ≤ q.1 → p.2 ≤ q.2

instance [LE K] [DecidableLE K] : DecidablePred (Cutoff.Rising (K := K))
  | .fixed _ => isTrue trivial
  | .byMagnitude pairs =>
    inferInstanceAs (Decidable (∀ p ∈ pairs, ∀ q ∈ pairs, p.1 ≤ q.1 → p.2 ≤ q.2))

theorem Cutoff.Rising.of_reorders [LE K] {c d : Cutoff K} (h : d.Rising) (hcd : c.Reorders d) :
    c.Rising := by
  cases c with
  | fixed km => trivial
  | byMagnitude ps =>
    cases d with
    | fixed km => contradiction
    | byMagnitude qs => exact fun p hp q hq => h p (hcd.mem_iff.mp hp) q (hcd.mem_iff.mp hq)

theorem Curve.exists_knots_eq {pairs : List (K × K)} (h : pairs ≠ []) :
    ∃ c : Curve K, c.knots = pairs := by
  cases pairs with
  | nil => exact absurd rfl h
  | cons first rest => exact ⟨⟨first, rest⟩, rfl⟩

variable [Field K] [LinearOrder K] [FloorRing K]

namespace Curve

variable {p q : K × K}

theorem line_left (p q : K × K) : line p q p.1 = p.2 := by
  unfold line
  rw [sub_self, zero_mul, zero_div, add_zero]

theorem line_right (hlt : p.1 < q.1) : line p q q.1 = q.2 := by
  have hrun : q.1 - p.1 ≠ 0 := sub_ne_zero.mpr hlt.ne'
  unfold line
  rw [mul_div_cancel_left₀ _ hrun, add_sub_cancel]

theorem follow_left (hlt : p.1 < q.1) (rest : List (K × K)) : follow p.1 p q rest = p.2 := by
  cases rest with
  | nil => exact line_left p q
  | cons r rest =>
    rw [follow, if_neg hlt.not_ge]
    exact line_left p q

variable [IsStrictOrderedRing K]

theorem line_mono (hlt : p.1 < q.1) (hle : p.2 ≤ q.2) : Monotone (line p q) := by
  have hrun : 0 < q.1 - p.1 := sub_pos.mpr hlt
  have hrise : 0 ≤ q.2 - p.2 := sub_nonneg.mpr hle
  intro a b hab
  unfold line
  gcongr

/-- Induction on the knots ahead; on the two sides of one the curve is compared with the knot. -/
theorem follow_mono {rest : List (K × K)}
    (h : (p :: q :: rest).Pairwise fun p q => p.1 < q.1 ∧ p.2 ≤ q.2) :
    Monotone fun x => follow x p q rest := by
  induction rest generalizing p q with
  | nil =>
    obtain ⟨hlt, hle⟩ := (List.pairwise_cons.mp h).1 q (List.mem_singleton_self q)
    exact line_mono hlt hle
  | cons r rest ih =>
    obtain ⟨hfirst, htail⟩ := List.pairwise_cons.mp h
    obtain ⟨hlt, hle⟩ := hfirst q List.mem_cons_self
    have hlater := ih htail
    intro a b hab
    simp only [follow]
    by_cases ha : q.1 ≤ a
    · rw [if_pos ha, if_pos (ha.trans hab)]
      exact hlater hab
    · rw [if_neg ha]
      by_cases hb : q.1 ≤ b
      · have hnext : q.1 < r.1 := ((List.pairwise_cons.mp htail).1 r List.mem_cons_self).1
        rw [if_pos hb]
        calc line p q a ≤ line p q q.1 := line_mono hlt hle (not_le.mp ha).le
          _ = q.2 := line_right hlt
          _ = follow q.1 q r rest := (follow_left hnext rest).symm
          _ ≤ follow b q r rest := hlater hb
      · rw [if_neg hb]
        exact line_mono hlt hle hab

theorem value_mono {c : Curve K} (h : c.knots.Pairwise fun p q => p.1 < q.1 ∧ p.2 ≤ q.2) :
    Monotone c.value := by
  obtain ⟨first, rest⟩ := c
  cases rest with
  | nil => exact monotone_const
  | cons q rest => exact follow_mono h

end Curve

variable [IsStrictOrderedRing K]

theorem Cutoff.Rising.exists_gives_le {c : Cutoff K} (h : c.Rising) (hvalid : c.Valid) {a b : K}
    (hab : a ≤ b) : ∃ x y, c.Gives (some a) x ∧ c.Gives (some b) y ∧ x ≤ y := by
  cases c with
  | fixed km => exact ⟨km, km, .fixed, .fixed, le_rfl⟩
  | byMagnitude pairs =>
    obtain ⟨curve, rfl⟩ := Curve.exists_knots_eq hvalid.1
    have hknots : curve.knots.Pairwise fun p q => p.1 < q.1 ∧ p.2 ≤ q.2 :=
      hvalid.2.2.imp_of_mem fun hp hq hlt => ⟨hlt, h _ hp _ hq hlt.le⟩
    exact ⟨curve.value a, curve.value b, .onCurve, .onCurve, Curve.value_mono hknots hab⟩

namespace CutoffTable

variable [NumberText K] {entries : List (String × Cutoff K)} {t : CutoffTable K}

/-- Where the pairs that were given for a region type do not fall, in whatever order they were
given, neither do its cutoffs; and where those that were given for the default do not, neither do
the cutoffs of any region type without an entry of its own. -/
theorem Obtained.get_mono (ht : Obtained entries t) {region key : String} {given : Cutoff K}
    (hkey : key = region ∨ t.contains region = false ∧ key = defaultRegion)
    (hgiven : lastGiven? entries key = some given) (hrising : given.Rising) {a b : K}
    (hab : a ≤ b) :
    ∃ x y, t.get region (some a) = .ok x ∧ t.get region (some b) = .ok y ∧ x ≤ y := by
  have hkeeps := ht.keeps
  obtain ⟨cutoff, hcheck, hentry⟩ := hkeeps.passes key given hgiven
  have hresolve : t.resolve? region = some (key, cutoff) := by
    obtain rfl | ⟨hregion, rfl⟩ := hkey
    · exact resolve?_of_entry hentry
    · rw [resolve?_eq_default hregion]
      exact resolve?_of_entry hentry
  have hrises := hrising.of_reorders (Cutoff.reorders_of_check hcheck)
  obtain ⟨x, y, hx, hy, hle⟩ := hrises.exists_gives_le (Cutoff.valid_of_check hcheck) hab
  exact ⟨x, y, get_of_gives hkeeps.curved hresolve hx, get_of_gives hkeeps.curved hresolve hy, hle⟩

/-- Rationals of which no text is read, so that tables of them are made of entries only. -/
instance ratText : NumberText ℚ := ⟨fun _ => "", fun _ => "", fun _ _ _ => none⟩

theorem get_mono_of_default : ∃ t : CutoffTable ℚ,
    ofEntries [(defaultRegion, .byMagnitude [(8, 300), (5, 100), (7, 300)])] = .ok t ∧
    t.contains "any" = false ∧
    ∃ x y, t.get "any" (some 4) = .ok x ∧ t.get "any" (some 9) = .ok y ∧ x ≤ y := by
  have hcheck : Cutoff.check (.byMagnitude [((8 : ℚ), (300 : ℚ)), (5, 100), (7, 300)]) =
      .ok (.byMagnitude [(5, 100), (7, 300), (8, 300)]) := by
    have h85 : Scalar.totalLE (8 : ℚ) 5 = false := by decide
    have h57 : Scalar.totalLE (5 : ℚ) 7 = true := by decide
    have h87 : Scalar.totalLE (8 : ℚ) 7 = false := by decide
    apply Cutoff.check_byMagnitude (by decide) (by decide) _ (by decide)
    simp [Cutoff.sorted, List.mergeSort, h85, h57, h87]
  have ht : ofEntries [(defaultRegion, .byMagnitude [((8 : ℚ), (300 : ℚ)), (5, 100), (7, 300)])] =
      .ok (empty.insert defaultRegion (.byMagnitude [(5, 100), (7, 300), (8, 300)])) := by
    rw [ofEntries, insertAll_cons hcheck, insertAll]
  have hregion : (empty.insert defaultRegion (Cutoff.byMagnitude
      [((5 : ℚ), (100 : ℚ)), (7, 300), (8, 300)])).contains "any" = false := by
    decide
  refine ⟨_, ht, hregion, ?_⟩
  exact Obtained.get_mono (.made ht) (.inr ⟨hregion, rfl⟩) rfl (by decide) (by decide)

end CutoffTable

end HazardReach
